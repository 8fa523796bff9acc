import RsoVoting.TwoPhase.DbAgentActor

namespace RsoVoting.TwoPhase

/-!
# `CommitActor` and its connection

For every database host it tries, the coordinator creates a `CommitActor`, which opens one
TCP connection and speaks to the one `DbAgentActor` that the host's `TcpServer` creates for
it.  A `Connection` is everything along that line: the coordinator's three promises, the
`CommitActor`, the frames in flight both ways and the agent.

* `CommitActor` — its mailbox, its behaviour and its mutable `listener`;
* `Connection.handleRequest` / `receiveReply` — its two handlers once connected;
* `Connection.step` — every way the connection can move.  The choices of the environment
  are in the label: which actor runs, when an ask times out, which frame is lost, how a
  Mongo operation goes.

A frame is delivered whole or lost; the text of the frames is the subject of `Framing`.
-/

/-- What a `CommitActor` reacts to: `receive` before and after its `Connect` was sent, the
    handler it becomes once connected, or nothing any more. -/
inductive Behaviour where
  | idle
  | connecting
  | connected
  | stopped
deriving DecidableEq, Repr

/-- The state of a `CommitActor`; `listener` is the promise that replies are forwarded to. -/
structure CommitActor where
  behaviour : Behaviour := .idle
  listener : Option Phase := none
  inbox : List Request := []
deriving DecidableEq, Repr

/-- One line from the coordinator to a database host. -/
structure Connection where
  voteAsk : Ask := .unsent
  commitAsk : Ask := .unsent
  rollbackAsk : Ask := .unsent
  proxy : CommitActor := {}
  toAgent : List Command := []
  toProxy : List Reply := []
  agent : DbAgentActor := {}
deriving DecidableEq, Repr

namespace Connection

/-! ### The coordinator's promises -/

/-- The promise of a phase. -/
def ask (c : Connection) : Phase → Ask
  | .vote     => c.voteAsk
  | .commit   => c.commitAsk
  | .rollback => c.rollbackAsk

/-- Overwrite the promise of a phase. -/
def setAsk (c : Connection) (p : Phase) (a : Ask) : Connection :=
  match p with
  | .vote     => { c with voteAsk := a }
  | .commit   => { c with commitAsk := a }
  | .rollback => { c with rollbackAsk := a }

/-- Put a message into the `CommitActor`'s mailbox. -/
def tell (c : Connection) (r : Request) : Connection :=
  { c with proxy := { c.proxy with inbox := c.proxy.inbox ++ [r] } }

/-- `actor ? message`: a new promise, and the message sent. -/
def sendAsk (c : Connection) (p : Phase) : Connection :=
  (c.setAsk p .pending).tell p.request

/-- A message to the promise of phase `p`; only the first one counts. -/
def complete (c : Connection) (p : Phase) (m : Message) : Connection :=
  if c.ask p = .pending then c.setAsk p (.answered m) else c

/-! ### The `CommitActor`'s handlers -/

/-- `listener.get ! m`; without a listener the handler throws and the actor restarts. -/
def reply (c : Connection) (m : Message) : Connection :=
  match c.proxy.listener with
  | some p => c.complete p m
  | none   => { c with proxy := { c.proxy with behaviour := .idle } }

/-- The reaction to a message of the coordinator.  Messages that a behaviour does not
    handle are dropped. -/
def handleRequest (c : Connection) (r : Request) : Connection :=
  match c.proxy.behaviour, r with
  | .stopped, _             => c
  | _, .poisonPill          => { c with proxy := { c.proxy with behaviour := .stopped } }
  | .connected, .vote       => c
  | .connected, .commit     =>
    { c with proxy := { c.proxy with listener := some .commit },
             toAgent := c.toAgent ++ [.commit] }
  | .connected, .rollback   =>
    reply { c with proxy := { c.proxy with listener := some .rollback },
                   toAgent := c.toAgent ++ [.rollback] } .ack
  | .idle, .vote            =>
    { c with proxy := { c.proxy with listener := some .vote, behaviour := .connecting } }
  | .connecting, .vote      =>
    { c with proxy := { c.proxy with listener := some .vote } }
  | .idle, .commit          => c
  | .idle, .rollback        => c
  | .connecting, .commit    => c
  | .connecting, .rollback  => c

/-- The message that a reply of the agent is forwarded as. -/
def Reply.forward : Reply → Message
  | .voteOk => .voteOk
  | .ack    => .ack

/-- `Received(data)` with a reply of the agent, once connected. -/
def receiveReply (c : Connection) (r : Reply) : Connection :=
  c.reply (Reply.forward r)

/-! ### The steps of a connection -/

/-- How a connection moves. -/
inductive ConnAction where
  /-- The `CommitActor` takes the next message of its mailbox. -/
  | handleRequest
  /-- `CommandFailed(_: Connect)`. -/
  | commandFailed
  /-- `Connected` at both ends: the host's `TcpServer` creates the agent. -/
  | connected
  /-- The next reply frame reaches the `CommitActor`. -/
  | receiveReply
  /-- The next command frame reaches the agent. -/
  | receiveCommand
  /-- The agent is told that its peer closed the connection. -/
  | peerClosed
  /-- A started Mongo operation moves. -/
  | mongo (m : DbAgentActor.MongoAction)
  /-- The agent stops, as one of its callbacks asked. -/
  | stopAgent
  /-- The `CommitActor` stops together with its parent. -/
  | stopChild
  /-- An ask of the coordinator times out. -/
  | timeout (p : Phase)
  /-- The next command frame is lost. -/
  | loseCommand
  /-- The next reply frame is lost. -/
  | loseReply
deriving DecidableEq, Repr

/-- One step of a connection and of the collection at its host. -/
def step (txId : String) (documents : List Document) (c : Connection)
    (votes : List Document) : ConnAction → Option (Connection × List Document)
  | .handleRequest => do
    let r ← c.proxy.inbox.head?
    guard (c.proxy.behaviour ≠ .stopped)
    return (({ c with proxy := { c.proxy with inbox := c.proxy.inbox.tail } }).handleRequest r,
      votes)
  | .commandFailed => do
    guard (c.proxy.behaviour = .connecting)
    let c' := c.reply .voteError
    return ({ c' with proxy := { c'.proxy with behaviour := .stopped } }, votes)
  | .connected => do
    guard (c.proxy.behaviour = .connecting ∧ c.agent.status = .absent)
    return ({ c with proxy := { c.proxy with behaviour := .connected },
                     agent := { c.agent with status := .running },
                     toAgent := c.toAgent ++ [.vote txId documents] }, votes)
  | .receiveReply => do
    let r ← c.toProxy.head?
    guard (c.proxy.behaviour = .connected)
    return (({ c with toProxy := c.toProxy.tail }).receiveReply r, votes)
  | .receiveCommand => do
    let m ← c.toAgent.head?
    guard (c.agent.status = .running)
    let (agent, replies) := c.agent.receive m
    return ({ c with toAgent := c.toAgent.tail, agent, toProxy := c.toProxy ++ replies }, votes)
  | .peerClosed => do
    guard (c.agent.status = .running)
    return ({ c with agent := { c.agent with status := .stopped } }, votes)
  | .mongo m => do
    let (agent, votes', replies) ← c.agent.mongo votes m
    return ({ c with agent, toProxy := c.toProxy ++ replies }, votes')
  | .stopAgent => do
    guard (c.agent.status = .running ∧ c.agent.stopRequested)
    return ({ c with agent := { c.agent with status := .stopped } }, votes)
  | .stopChild => do
    guard (c.proxy.behaviour ≠ .stopped)
    return ({ c with proxy := { c.proxy with behaviour := .stopped } }, votes)
  | .timeout p => do
    guard (c.ask p = .pending)
    return (c.setAsk p (.answered .unknownError), votes)
  | .loseCommand => do
    guard (c.toAgent ≠ [])
    return ({ c with toAgent := c.toAgent.tail }, votes)
  | .loseReply => do
    guard (c.toProxy ≠ [])
    return ({ c with toProxy := c.toProxy.tail }, votes)

end Connection

end RsoVoting.TwoPhase
