import RsoVoting.TwoPhase.Messages

namespace RsoVoting.TwoPhase

/-!
# `DbAgentActor`: the agent of one connection at a database host

The agent keeps the documents and the `txId` of the last vote.  On `COMMIT` and `ROLLBACK`
it starts a Mongo operation and goes on without waiting for it; when the operation's future
completes, its callback replies and asks the actor to stop (`context stop self`).

* `InsertMany` / `DeleteMany` — a started operation.  An insert stores its documents one
  after the other and may fail after any prefix; a delete takes effect at one moment.
* `DbAgentActor.receive` — the reaction to one whole command;
* `DbAgentActor.mongo` — one step of a started operation on the host's collection.

The source logs and replies from the future's callback; a reply of an agent that has
already stopped goes nowhere, which a lost reply covers.
-/

/-- A started `votes.insertMany(docs)`: how many documents it has stored, and how its
    future completed. -/
structure InsertMany where
  docs : List Document
  stored : ℕ := 0
  completed : Option Bool := none
deriving DecidableEq, Repr

/-- A started `votes.deleteMany(Document("txId" -> txId))`. -/
structure DeleteMany where
  txId : Option String
  applied : Bool := false
  completed : Option Bool := none
deriving DecidableEq, Repr

/-- Whether the actor exists. -/
inductive Status where
  | absent
  | running
  | stopped
deriving DecidableEq, Repr

/-- The agent's fields, with the operations it has started. -/
structure DbAgentActor where
  status : Status := .absent
  documentsToSave : Option (List Document) := none
  txId : Option String := none
  inserts : List InsertMany := []
  deletes : List DeleteMany := []
  stopRequested : Bool := false
deriving DecidableEq, Repr

namespace DbAgentActor

/-- The supervisor restarts an actor whose handler throws: its fields start afresh, the
    operations it has started run on. -/
def restart (a : DbAgentActor) : DbAgentActor :=
  { a with documentsToSave := none, txId := none }

/-- The reaction to a command: the next state and the replies written at once. -/
def receive (a : DbAgentActor) : Command → DbAgentActor × List Reply
  | .vote txId objects =>
    ({ a with documentsToSave := some objects, txId := some txId }, [.voteOk])
  | .commit =>
    match a.documentsToSave with
    | none      => (a.restart, [])
    | some docs => ({ a with inserts := a.inserts ++ [{ docs }] }, [])
  | .rollback => ({ a with deletes := a.deletes ++ [{ txId := a.txId }] }, [])

/-- One step of a started Mongo operation, chosen by the environment. -/
inductive MongoAction where
  /-- The `k`-th insert stores its next document. -/
  | storeNext (k : ℕ)
  /-- The future of the `k`-th insert completes, with success or with failure. -/
  | insertCompletes (k : ℕ) (ok : Bool)
  /-- The `k`-th delete takes effect. -/
  | applyDelete (k : ℕ)
  /-- The future of the `k`-th delete completes. -/
  | deleteCompletes (k : ℕ) (ok : Bool)
deriving DecidableEq, Repr

/-- The callback of `onComplete`: an `ACK` on success, and `context stop self` either way. -/
def onComplete (a : DbAgentActor) (ok : Bool) : DbAgentActor × List Reply :=
  ({ a with stopRequested := true }, if ok then [.ack] else [])

/-- A step of a started operation on the collection `votes` of the agent's host: the next
    agent and collection, and the replies written. -/
def mongo (a : DbAgentActor) (votes : List Document) :
    MongoAction → Option (DbAgentActor × List Document × List Reply)
  | .storeNext k => do
    let op ← a.inserts[k]?
    let doc ← op.docs[op.stored]?
    guard (op.completed = none)
    return ({ a with inserts := a.inserts.set k { op with stored := op.stored + 1 } },
      votes ++ [doc], [])
  | .insertCompletes k ok => do
    let op ← a.inserts[k]?
    guard (op.completed = none ∧ (ok → op.stored = op.docs.length))
    let (a', replies) :=
      { a with inserts := a.inserts.set k { op with completed := some ok } }.onComplete ok
    return (a', votes, replies)
  | .applyDelete k => do
    let op ← a.deletes[k]?
    guard (op.completed = none ∧ op.applied = false)
    return ({ a with deletes := a.deletes.set k { op with applied := true } },
      votes.filter fun d => !matchesTxId op.txId d, [])
  | .deleteCompletes k ok => do
    let op ← a.deletes[k]?
    guard (op.completed = none ∧ (ok → op.applied))
    let (a', replies) :=
      { a with deletes := a.deletes.set k { op with completed := some ok } }.onComplete ok
    return (a', votes, replies)

end DbAgentActor

end RsoVoting.TwoPhase
