import RsoVoting.Document

namespace RsoVoting.TwoPhase

/-!
# Messages of the two-phase commit

Two vocabularies meet in `CommitActor`: the JSON commands of `Messages2PC` that travel
between it and the `DbAgentActor` at the other end of its connection, and the local
messages of `CommitActor.Messages` that it exchanges with the coordinator.

* `Command` — what a `CommitActor` writes on its connection;
* `Reply` — what a `DbAgentActor` answers with (`ABORT` exists in the source but is never
  sent);
* `Request` / `Message` — the coordinator's messages to a `CommitActor` and its answers;
* `Phase` — the three questions the coordinator asks, each with its own promise.
-/

/-- `VOTE` with its `txId` and `objects`, `COMMIT` and `ROLLBACK`. -/
inductive Command where
  | vote (txId : String) (objects : List Document)
  | commit
  | rollback
deriving DecidableEq, Repr

/-- `VOTE_OK` and `ACK`. -/
inductive Reply where
  | voteOk
  | ack
deriving DecidableEq, Repr

/-- The coordinator's messages to a `CommitActor`. -/
inductive Request where
  | vote
  | commit
  | rollback
  | poisonPill
deriving DecidableEq, Repr

/-- A `CommitActor`'s answers to the coordinator. -/
inductive Message where
  | voteOk
  | voteError
  | ack
  | unknownError
deriving DecidableEq, Repr

/-- The asks `actor ? Vote`, `actor ? Commit` and `actor ? Rollback`. -/
inductive Phase where
  | vote
  | commit
  | rollback
deriving DecidableEq, Repr

/-- The message that an ask sends. -/
def Phase.request : Phase → Request
  | .vote     => .vote
  | .commit   => .commit
  | .rollback => .rollback

/-- The promise behind an ask: the first message to reach it completes it. -/
inductive Ask where
  | unsent
  | pending
  | answered (m : Message)
deriving DecidableEq, Repr

/-- The ask has been answered, by a message or by its timeout. -/
def Ask.isAnswered : Ask → Bool
  | .answered _ => true
  | _           => false

end RsoVoting.TwoPhase
