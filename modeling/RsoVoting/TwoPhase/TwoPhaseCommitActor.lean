import RsoVoting.Lib.Interleave
import RsoVoting.TwoPhase.CommitActor
import Mathlib.Data.List.Perm.Basic

namespace RsoVoting.TwoPhase

/-!
# `TwoPhaseCommitActor`: the coordinator of one transaction

The coordinator runs one future: it selects hosts in rounds of votes until `REDUNDANCY` of
them voted ok, asks those to commit, and rolls back if not all of them acknowledged.

* `Transaction` — what a coordinator is created with;
* `MainServlet.run2pc` — the transaction that a `POST` creates one with;
* `drawHosts` / `potentialAfter` — one pass of the loop of `selectActorsForCommit`;
* `Coordinator` — where the future stands; between two states it awaits promises;
* `Tx.proceed` — the future runs to its next `Await`;
* `Tx.step` — a step of the transaction: of the coordinator or of one connection.

Hosts are indices into `dbHostsConf`, as in the source; the collection an index writes to
is the one of the host it names.
-/

/-- What a coordinator is created with: the environment's host list and redundancy, and
    the transaction's id and documents, each of which carries that id. -/
structure Transaction (H : Type) where
  dbHostsConf : List H
  minDbsCount : ℕ
  txId : String
  documents : List Document
  tagged : ∀ d ∈ documents, d.txId = some (.string txId)

/-- `TwoPhaseCommitActor.Result`. -/
inductive Result where
  | ok
  | error
deriving DecidableEq, Repr

/-! ### What a `POST` starts

`MainServlet` takes the posted list of JSON objects as it is, adds a fresh `rowId` to each
and one fresh `txId` to all of them, and creates a coordinator.  The fresh UUIDs are
parameters. -/

namespace MainServlet

/-- `voteObj + ("rowId" -> …) + ("txId" -> txId)`: an entry of the posted object under one
    of these keys is overwritten. -/
def withIds (txId rowId : String) (voteObj : Document) : Document :=
  { voteObj with rowId := some (.string rowId), txId := some (.string txId) }

/-- The transaction that a `POST` of these votes starts; `rowIds k` is the `rowId` of the
    `k`-th of them. -/
def run2pc {H : Type} (dbHostsConf : List H) (minDbsCount : ℕ) (txId : String)
    (rowIds : ℕ → String) (jsonVotes : List Document) : Transaction H where
  dbHostsConf := dbHostsConf
  minDbsCount := minDbsCount
  txId := txId
  documents := jsonVotes.mapIdx fun k voteObj => withIds txId (rowIds k) voteObj
  tagged := by
    intro d hd
    obtain ⟨k, hk, rfl⟩ := List.mem_mapIdx.mp hd
    rfl

end MainServlet

/-! ### One round of `selectActorsForCommit` -/

/-- The hosts asked in a round: as many of the shuffled candidates as are still missing. -/
def drawHosts (shuffled : List ℕ) (leftToCommitCount : ℕ) : List ℕ :=
  shuffled.take leftToCommitCount

/-- `potentialDbsIndicies.filterNot(dbHostsIndicies.contains(_))`. -/
def potentialAfter (potentialDbsIndicies dbHostsIndicies : List ℕ) : List ℕ :=
  potentialDbsIndicies.filter (· ∉ dbHostsIndicies)

/-! ### The coordinator's future -/

/-- Where the coordinator's future stands.  `done` keeps the actors it had selected. -/
inductive Coordinator where
  /-- At the head of the `while` loop. -/
  | selecting (potentialDbsIndicies commitingActors : List ℕ)
  /-- Awaiting the votes of the hosts asked in this round. -/
  | voting (potentialDbsIndicies commitingActors dbHostsIndicies : List ℕ)
  /-- Awaiting the answers to `Commit`. -/
  | committing (actorsCommiting : List ℕ)
  /-- Awaiting the answers to `Rollback`. -/
  | rollingBack (actorsCommiting : List ℕ)
  /-- The future has completed and the actor has stopped itself. -/
  | done (actorsCommiting : Option (List ℕ)) (answer : Result)
deriving DecidableEq, Repr

/-- The coordinator has stopped. -/
def Coordinator.isDone : Coordinator → Bool
  | .done _ _ => true
  | _         => false

/-- The private state of one transaction: its coordinator and its connections. -/
structure Tx where
  coord : Coordinator
  conn : ℕ → Connection

namespace Tx

variable {H : Type}

/-- The coordinator has just received `"go"`. -/
def init (cfg : Transaction H) : Tx where
  coord := .selecting (List.range cfg.dbHostsConf.length) []
  conn := fun _ => {}

/-- Do the same on the connections to several hosts. -/
def onEach (conn : ℕ → Connection) (hosts : List ℕ) (f : Connection → Connection) :
    ℕ → Connection :=
  fun i => if i ∈ hosts then f (conn i) else conn i

/-- Every ask of phase `p` to these hosts has been answered. -/
def allAnswered (conn : ℕ → Connection) (hosts : List ℕ) (p : Phase) : Bool :=
  hosts.all fun i => ((conn i).ask p).isAnswered

/-- Every ask of phase `p` to these hosts has been answered by `Ack`. -/
def allAck (conn : ℕ → Connection) (hosts : List ℕ) (p : Phase) : Bool :=
  hosts.all fun i => (conn i).ask p = .answered .ack

/-- The hosts of a round that voted ok. -/
def votedOk (conn : ℕ → Connection) (hosts : List ℕ) : List ℕ :=
  hosts.filter fun i => (conn i).voteAsk = .answered .voteOk

/-- The future runs to its next `Await`, or to its end.  `shuffled` is the outcome of
    `Random.shuffle`, used at the head of a round only. -/
def proceed (minDbsCount : ℕ) (tx : Tx) (shuffled : List ℕ) : Option Tx :=
  match tx.coord with
  | .selecting potential commiting =>
    if commiting.length < minDbsCount then
      let leftToCommitCount := minDbsCount - commiting.length
      if leftToCommitCount > potential.length then
        -- "Not enough db nodes running!" leaves through `recover`
        some { tx with coord := .done none .error }
      else if shuffled.Perm potential then
        let dbHosts := drawHosts shuffled leftToCommitCount
        some { coord := .voting (potentialAfter potential dbHosts) commiting dbHosts,
               conn := onEach tx.conn dbHosts (·.sendAsk .vote) }
      else none
    else
      some { coord := .committing commiting,
             conn := onEach tx.conn commiting (·.sendAsk .commit) }
  | .voting potential commiting dbHosts =>
    if allAnswered tx.conn dbHosts .vote then
      some { tx with coord := .selecting potential (commiting ++ votedOk tx.conn dbHosts) }
    else none
  | .committing actors =>
    if allAnswered tx.conn actors .commit then
      if allAck tx.conn actors .commit then
        some { coord := .done (some actors) .ok,
               conn := onEach tx.conn actors (·.tell .poisonPill) }
      else
        some { coord := .rollingBack actors,
               conn := onEach tx.conn actors (·.sendAsk .rollback) }
    else none
  | .rollingBack actors =>
    -- a failed rollback throws into `recover`, which answers `Error` as well
    if allAnswered tx.conn actors .rollback then
      some { coord := .done (some actors) .error,
             conn := onEach tx.conn actors (·.tell .poisonPill) }
    else none
  | .done _ _ => none

/-- A step of the transaction. -/
inductive Action where
  | coordinator (shuffled : List ℕ)
  | connection (i : ℕ) (a : Connection.ConnAction)
deriving DecidableEq, Repr

/-- A `CommitActor` is stopped with its parent only once the coordinator has stopped. -/
def permits (coord : Coordinator) : Connection.ConnAction → Bool
  | .stopChild => coord.isDone
  | _          => true

variable [DecidableEq H]

/-- One step of a transaction over the hosts' `votes` collections. -/
def step (cfg : Transaction H) (tx : Tx) (votes : H → List Document) :
    Action → Option (Tx × (H → List Document))
  | .coordinator shuffled => (tx.proceed cfg.minDbsCount shuffled).map (·, votes)
  | .connection i a => do
    let h ← cfg.dbHostsConf[i]?
    guard (permits tx.coord a)
    let (c, vs) ← (tx.conn i).step cfg.txId cfg.documents (votes h) a
    return ({ tx with conn := Function.update tx.conn i c }, Function.update votes h vs)

end Tx

/-! ### Runs of one transaction -/

section Runs

open RsoVoting.Runs RsoVoting.Interleave

variable {H : Type} [DecidableEq H]

/-- The state of a system with one transaction: its actors and the hosts' collections. -/
abbrev State (H : Type) := Tx × (H → List Document)

/-- The transaction by itself. -/
def transition (cfg : Transaction H) : State H → Tx.Action → Option (State H) :=
  alone (Tx.step cfg)

/-- The start of a transaction over given collections. -/
def start (cfg : Transaction H) (votes : H → List Document) : State H :=
  (Tx.init cfg, votes)

/-- The coordinator has answered `r`. -/
def Answered (s : State H) (r : Result) : Prop := ∃ actors, s.1.coord = .done actors r

/-- No collection holds a document of the transaction yet: its id is a fresh UUID. -/
def Fresh (cfg : Transaction H) (votes : H → List Document) : Prop :=
  ∀ h, ofTx cfg.txId (votes h) = []

end Runs

end RsoVoting.TwoPhase
