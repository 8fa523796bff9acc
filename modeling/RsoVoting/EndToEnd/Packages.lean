import RsoVoting.DataGenerator.VotingData
import RsoVoting.EndToEnd.PostedVotes
import RsoVoting.Aggregator.ExactCount
import Mathlib.Data.Nat.Pairing

namespace RsoVoting.EndToEnd

open RsoVoting RsoVoting.Runs RsoVoting.TwoPhase RsoVoting.Aggregator RsoVoting.DataGenerator

/-!
# From the generator to the counts

The data generator makes its votes once and posts them again and again.  It counts a package
as sent as soon as the servlet answers, whatever the status in the answer is, and stops at
the first exception; such a package may have arrived all the same.

* `Sending` / `sendPackages` — the loop over the packages;
* `sendPackages_spec` — what it has counted when it ends;
* `packages` — the posts that arrive at the servlet;
* `countP_votes_packages` — each of them has every generated vote;
* `packages_sent_and_collected` — what the generator reports, against what the aggregator
  collects from the hosts.
-/

/-! ### The loop over the packages -/

/-- `numOfPackageSent`, and the requests that have been made. -/
structure Sending where
  numOfPackageSent : Int32 := 0
  requests : ℕ := 0

/-- The loop, with what each request comes to: a status, or `none` for an exception. -/
def sendPackages (votesNumberPerPackage : Int32) (response : ℕ → Option Result) :
    ℕ → Sending → Sending
  | 0,     sending => sending
  | n + 1, sending =>
    match response sending.requests with
    | some _ =>
      -- the status is not looked at
      sendPackages votesNumberPerPackage response n
        { numOfPackageSent := sending.numOfPackageSent + votesNumberPerPackage
          requests := sending.requests + 1 }
    | none   => { sending with requests := sending.requests + 1 }

/-- The requests among the first `n` that have been answered. -/
def answered (response : ℕ → Option Result) (n : ℕ) : ℕ :=
  (List.range n).countP fun i => (response i).isSome

/-- The requests among the first `n` that have been answered `ok`. -/
def answeredOk (response : ℕ → Option Result) (n : ℕ) : ℕ :=
  (List.range n).countP fun i => response i = some .ok

theorem answered_succ (response : ℕ → Option Result) (n : ℕ) :
    answered response (n + 1) = answered response n + if (response n).isSome then 1 else 0 := by
  rw [answered, List.range_succ, List.countP_append, List.countP_singleton]
  rfl

/-- **What has been counted when the loop ends**: the votes of every package that has been
    answered, which are all that have been sent, or all but the last one. -/
theorem sendPackages_spec (size : ℕ) (response : ℕ → Option Result) (n : ℕ) {sending : Sending}
    (hall : answered response sending.requests = sending.requests)
    (hnum : sending.numOfPackageSent = Int32.ofNat (size * sending.requests)) :
    let sent := sendPackages (Int32.ofNat size) response n sending
    sent.numOfPackageSent = Int32.ofNat (size * answered response sent.requests) ∧
      answered response sent.requests ≤ sent.requests ∧
      sent.requests ≤ answered response sent.requests + 1 ∧
      sent.requests ≤ sending.requests + n := by
  induction n generalizing sending with
  | zero =>
    simp only [sendPackages, hall]
    exact ⟨hnum, le_rfl, Nat.le_succ _, le_rfl⟩
  | succ n ih =>
    have hsucc := answered_succ response sending.requests
    cases hresponse : response sending.requests with
    | none =>
      -- the package is not counted, and no further one is sent
      rw [hresponse, hall] at hsucc
      simp only [sendPackages, hresponse]
      rw [hsucc]
      exact ⟨hnum, by simp, by simp, by omega⟩
    | some result =>
      rw [hresponse, hall] at hsucc
      simp only [sendPackages, hresponse]
      obtain ⟨h₁, h₂, h₃, h₄⟩ := @ih
        { numOfPackageSent := sending.numOfPackageSent + Int32.ofNat size
          requests := sending.requests + 1 } hsucc (by
          show sending.numOfPackageSent + Int32.ofNat size = _
          rw [hnum, ← Int32.ofNat_add]
          rfl)
      exact ⟨h₁, h₂, h₃, h₄.trans_eq (Nat.add_right_comm _ _ _)⟩

/-- From the start, as long as `numOfPackageSent` does not overflow. -/
theorem toInt_numOfPackageSent {size : ℕ} {response : ℕ → Option Result} {n : ℕ}
    (hsize : n * size < 2 ^ 31) :
    let sent := sendPackages (Int32.ofNat size) response n {}
    sent.numOfPackageSent.toInt = size * answered response sent.requests ∧
      sent.requests ≤ answered response sent.requests + 1 ∧ sent.requests ≤ n := by
  intro sent
  obtain ⟨hnum, hle, hge, hrequests⟩ := @sendPackages_spec size response n {} rfl rfl
  have hlt : size * answered response sent.requests < 2 ^ 31 := by
    rw [Nat.mul_comm]
    have hn : answered response sent.requests ≤ n := hle.trans (hrequests.trans_eq (Nat.zero_add n))
    exact Nat.lt_of_le_of_lt (Nat.mul_le_mul_right size hn) hsize
  refine ⟨?_, hge, hrequests.trans_eq (Nat.zero_add n)⟩
  rw [show sent.numOfPackageSent = _ from hnum, Int32.toInt_ofNat_of_lt hlt]
  push_cast
  rfl

/-! ### The posts -/

/-- The UUIDs that the servlet makes for the packages. -/
structure Uuids where
  txId : ℕ → String
  rowId : ℕ → ℕ → String
  txId_unique : ∀ t u, txId t = txId u → t = u
  rowId_unique : ∀ t u j k, rowId t j = rowId u k → t = u ∧ j = k

/-- Every package is a post of the same votes. -/
def packages {H : Type} (hosts : List H) (nodup_hosts : hosts.Nodup) (redundancy : ℕ)
    (uuids : Uuids) (votes : List VoteEntity) : Posts H ℕ where
  hosts := hosts
  redundancy := redundancy
  post := fun i =>
    { txId := uuids.txId i, rowIds := uuids.rowId i, jsonVotes := votes.map VoteEntity.json }
  nodup_hosts := nodup_hosts
  txId_unique := uuids.txId_unique
  rowId_unique := uuids.rowId_unique

section Packages

variable {H : Type} {hosts : List H} {nodup_hosts : hosts.Nodup} {redundancy : ℕ}
  {uuids : Uuids} {votes : List VoteEntity}

/-- The votes of a package, with their row ids. -/
theorem votes_packages (i : ℕ) :
    ((packages hosts nodup_hosts redundancy uuids votes).post i).votes =
      votes.zipIdx.map fun e => (some (uuids.rowId i e.2), e.1.info (uuids.rowId i e.2)) := by
  show votesOf (((votes.map VoteEntity.json).mapIdx _)) = _
  rw [votesOf, List.mapIdx_eq_zipIdx_map, List.zipIdx_map, List.map_map, List.filterMap_map]
  exact congrFun List.filterMap_eq_map' _

/-- **Each package has every generated vote.** -/
theorem countP_votes_packages {p : Option String × VoteInfo → Bool} {q : VoteEntity → Bool}
    (hpq : ∀ rowId (v : VoteEntity), p (some rowId, v.info rowId) = q v) (ts : List ℕ) :
    ((packages hosts nodup_hosts redundancy uuids votes).votes ts).countP p =
      ts.length * votes.countP q := by
  have hpost : ∀ i ∈ ts, (List.countP p ∘ fun i =>
      ((packages hosts nodup_hosts redundancy uuids votes).post i).votes) i = votes.countP q := by
    intro i _
    rw [Function.comp, votes_packages, List.countP_map]
    have hq : votes.zipIdx.countP (q ∘ Prod.fst) = votes.countP q := by
      rw [← List.countP_map, List.zipIdx_map_fst]
    rw [← hq]
    exact List.countP_congr fun e _ => by rw [Function.comp, hpq]; rfl
  rw [Posts.votes, List.countP_flatMap, List.map_congr_left hpost, List.map_const',
    List.sum_replicate_nat]

/-- A pass collects the packages that have been accepted, and no more than all of them. -/
theorem countP_packages_range [DecidableEq H] {as : List (ℕ × Tx.Action)} {s : Servlet H ℕ}
    {instances : H → MongoInstance} {response : ℕ → Option Result} {requests : ℕ}
    (hrun : run (packages hosts nodup_hosts redundancy uuids votes).step
      (packages hosts nodup_hosts redundancy uuids votes).start as = some s)
    (hok : ∀ i < requests, response i = some .ok → Accepted s i)
    (hR : (packages hosts nodup_hosts redundancy uuids votes).Reading as s (List.range requests)
      instances)
    {p : (Sigma fun _ : Option String => VoteInfo) → Bool} {q : VoteEntity → Bool}
    (hpq : ∀ rowId (v : VoteEntity), p ⟨some rowId, v.info rowId⟩ = q v) :
    answeredOk response requests * votes.countP q ≤
        (collected (hosts.map instances)).entries.countP p ∧
      (collected (hosts.map instances)).entries.countP p ≤ requests * votes.countP q := by
  have hnd : (List.range requests).Nodup := List.nodup_range
  have haccepted : ∀ i ∈ (List.range requests).filter (fun i => response i = some .ok),
      Accepted s i := by
    intro i hi
    obtain ⟨hmem, hi⟩ := List.mem_filter.mp hi
    exact hok i (List.mem_range.mp hmem) (of_decide_eq_true hi)
  have hlower := hR.le_countP hrun (hnd.filter _) haccepted p
  have hupper := hR.countP_le hrun hnd p
  rw [countP_votes_packages (p := fun e => p ⟨e.1, e.2⟩) hpq] at hlower hupper
  rw [← List.countP_eq_length_filter] at hlower
  rw [List.length_range] at hupper
  exact ⟨hlower, hupper⟩

end Packages

/-! ### What is reported and what is collected -/

/-- **What the generator reports, against what is collected.**  Whatever the requests come to,
    the generator reports the votes of the packages that have been answered.  A pass over the
    hosts collects at least the votes of those that have been answered `ok`, and at most those
    that are reported and one package more: the last one, if its request has thrown.  The same
    bounds hold for every candidate. -/
theorem packages_sent_and_collected {H : Type} [DecidableEq H] {hosts : List H}
    {nodup_hosts : hosts.Nodup} {redundancy : ℕ} {uuids : Uuids} {votes : List VoteEntity}
    (response : ℕ → Option Result) {numOfPackages : ℕ}
    (hsize : numOfPackages * votes.length < 2 ^ 31)
    {as : List (ℕ × Tx.Action)} {s : Servlet H ℕ} {instances : H → MongoInstance} :
    let P := packages hosts nodup_hosts redundancy uuids votes
    let sent := sendPackages (Int32.ofNat votes.length) response numOfPackages {}
    run P.step P.start as = some s →
    (∀ i < sent.requests, response i = some .ok → Accepted s i) →
    P.Reading as s (List.range sent.requests) instances →
    ∀ (d : Dictionary) (clock : Option String → Clock),
    let handler := MongoHandler.getAllData clock { mapMongoInstances := P.hosts.map instances }
      { toDictionary := d }
    let accepted := answeredOk response sent.requests
    sent.numOfPackageSent.toInt = votes.length * answered response sent.requests ∧
    accepted * votes.length ≤ handler.1.mapAllData.entries.length ∧
    handler.1.mapAllData.entries.length ≤ sent.numOfPackageSent.toInt + votes.length ∧
    ∀ c, ((accepted * votes.countP (fun v => v.vote = c) : ℕ) : ℤ) ≤
        handler.2.value (.candidate c) ∧
      handler.2.value (.candidate c) ≤
        ((sent.requests * votes.countP (fun v => v.vote = c) : ℕ) : ℤ) := by
  intro P sent hrun hok hR d clock handler accepted
  obtain ⟨hreported, hlast, hrequests⟩ := @toInt_numOfPackageSent _ response _ hsize
  have hbounds : ∀ {p : (Sigma fun _ : Option String => VoteInfo) → Bool} {q : VoteEntity → Bool},
      (∀ rowId (v : VoteEntity), p ⟨some rowId, v.info rowId⟩ = q v) →
      accepted * votes.countP q ≤ (collected (hosts.map instances)).entries.countP p ∧
        (collected (hosts.map instances)).entries.countP p ≤ sent.requests * votes.countP q :=
    fun hpq => countP_packages_range hrun hok hR hpq
  obtain ⟨hlower, hupper⟩ := hbounds (p := fun _ => true) (q := fun _ => true) fun _ _ => rfl
  rw [List.countP_true, List.countP_true] at hlower hupper
  refine ⟨hreported, hlower, ?_, fun c => ?_⟩
  · -- all but the last request have been answered
    have hmul := Nat.mul_le_mul_right votes.length hlast
    rw [Nat.add_mul, Nat.one_mul, Nat.mul_comm (answered _ _)] at hmul
    rw [show sent.numOfPackageSent.toInt = _ from hreported]
    exact_mod_cast hupper.trans hmul
  · have hc := hbounds (p := fun e => decide (e.2.vote = c))
      (q := fun v => decide (v.vote = c)) fun _ _ => rfl
    have hle : sent.requests * votes.countP (fun v => v.vote = c) ≤
        numOfPackages * votes.length := Nat.mul_le_mul hrequests List.countP_le_length
    have hvalue : handler.2.value (.candidate c) =
        ((collected (hosts.map instances)).entries.countP fun e => decide (e.2.vote = c) : ℕ) :=
      toInt_getAllData_new (Nat.lt_of_le_of_lt (hc.2.trans hle) hsize)
    rw [hvalue]
    exact ⟨Int.ofNat_le.mpr hc.1, Int.ofNat_le.mpr hc.2⟩

namespace Sample

/-- UUIDs of different lengths. -/
def uuids : Uuids where
  txId := fun t => String.ofList (List.replicate t '0')
  rowId := fun t k => String.ofList (List.replicate (Nat.pair t k) '0')
  txId_unique := by
    intro t u h
    have hlen := congrArg List.length (String.ofList_injective h)
    rwa [List.length_replicate, List.length_replicate] at hlen
  rowId_unique := by
    intro t u j k h
    have hlen := congrArg List.length (String.ofList_injective h)
    rw [List.length_replicate, List.length_replicate] at hlen
    exact Nat.pair_eq_pair.mp hlen

/-- Two votes for different candidates. -/
def generated : List VoteEntity := [⟨"90021412345", 1, 1, 1, 1⟩, ⟨"90021412345", 2, 1, 1, 1⟩]

/-- The packages of these votes. -/
def generatedPosts : Posts ℕ ℕ := packages posts.hosts posts.nodup_hosts 2 uuids generated

/-- The first request is answered `ok`, the second one times out. -/
def response : ℕ → Option Result
  | 0 => some .ok
  | _ => none

/-- The steps of the run above, for the first two packages. -/
def firstPackage : List (ℕ × Tx.Action) :=
  firstAccepted.map fun a => (if a.1 then 0 else 1, a.2)

theorem run_firstPackage : ∃ s, run generatedPosts.step generatedPosts.start firstPackage = some s ∧
    Accepted s 0 := by
  have hok : (run generatedPosts.step generatedPosts.start firstPackage).map
      (fun s => (s.1 0).coord) = some (.done (some [0, 1]) .ok) := by decide
  obtain ⟨s, hs, hcoord⟩ := Option.map_eq_some_iff.mp hok
  exact ⟨s, hs, _, hcoord⟩

/-- The instances, of which the second one is down. -/
def packageInstances (s : Servlet ℕ ℕ) (host : ℕ) : MongoInstance where
  documents := s.2 host
  ping := host = 10

end Sample

/-- With one package answered and one that has timed out, two votes are reported, and two to
    four are collected. -/
theorem packages_sent_and_collected_sample :
    ∃ s, run Sample.generatedPosts.step Sample.generatedPosts.start Sample.firstPackage = some s ∧
      let map := (MongoHandler.getAllData Aggregator.Sample.clock
        { mapMongoInstances := Sample.generatedPosts.hosts.map (Sample.packageInstances s) }
        {}).1.mapAllData
      (sendPackages 2 Sample.response 5 {}).numOfPackageSent = 2 ∧
        2 ≤ map.entries.length ∧ (map.entries.length : ℤ) ≤ 2 + 2 := by
  obtain ⟨s, hrun, haccepted⟩ := Sample.run_firstPackage
  have hR : Sample.generatedPosts.Reading Sample.firstPackage s (List.range 2)
      (Sample.packageInstances s) := by
    have hS : Sample.generatedPosts.Snapshot Sample.firstPackage s (List.range 2)
        (Sample.packageInstances s) := ⟨by decide, fun host _ => ⟨[], s, rfl, by simp, rfl⟩⟩
    have hdel : (Sample.packageInstances s 10).Delivers :=
      hS.delivers hrun (by decide) (by decide) ⟨rfl, rfl⟩
    exact ⟨hS, List.countP_lt_length_iff.mpr ⟨10, by decide, by simpa using hdel⟩⟩
  have hok : ∀ i < 2, Sample.response i = some .ok → Accepted s i := by
    intro i hi hresponse
    cases i with
    | zero   => exact haccepted
    | succ i => cases hresponse
  obtain ⟨-, hlow, hhigh, -⟩ := packages_sent_and_collected Sample.response
    (show 5 * Sample.generated.length < 2 ^ 31 by decide) hrun hok hR {} Aggregator.Sample.clock
  exact ⟨s, hrun, by decide, hlow, hhigh⟩

end RsoVoting.EndToEnd
