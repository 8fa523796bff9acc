import Mathlib.Logic.Basic

namespace RsoVoting

/-!
# Statements and transactions on a database connection

A connection without autocommit, as a database server with snapshots runs it: statements
work on the state inside the open transaction, a commit makes that state permanent, and
after a failed statement everything but a rollback fails.

* `Connection` — the committed state, the state inside the transaction, and whether a
  statement of it has failed;
* `Connection.attempt` — execute one statement and commit, or roll back;
* `attempt_of_idle` / `attempts_of_idle` — on a connection without an open transaction an
  attempt is atomic: it has its whole effect or none, and leaves no transaction open.
-/

/-- A connection to a database whose content is a `D`. -/
structure Connection (D : Type*) where
  committed : D
  current : D
  failed : Bool
deriving DecidableEq, Repr

namespace Connection

variable {D A : Type*}

/-- A connection on which no transaction is open. -/
def idle (d : D) : Connection D := ⟨d, d, false⟩

@[simp] theorem idle_committed (d : D) : (idle d).committed = d := rfl

@[simp] theorem idle_failed (d : D) : (idle d).failed = false := rfl

/-- Execute a statement that the server may reject; `false` if it failed. -/
def execute (stmt : D → Option D) (c : Connection D) : Bool × Connection D :=
  if c.failed then (false, c)
  else match stmt c.current with
    | some d => (true, { c with current := d })
    | none   => (false, { c with failed := true })

/-- End the transaction and make its state permanent, unless a statement has failed. -/
def commit (c : Connection D) : Connection D :=
  if c.failed then idle c.committed else idle c.current

/-- End the transaction and forget its state. -/
def rollback (c : Connection D) : Connection D := idle c.committed

/-- What goes wrong with an attempt apart from the server rejecting its statement. -/
inductive Fault where
  | none
  | execute
  | commit
deriving DecidableEq, Repr

/-- The statement as the server answers it under a fault. -/
def Fault.statement (fault : Fault) (stmt : D → Option D) (d : D) : Option D :=
  if fault = .execute then Option.none else stmt d

/-- Execute a statement, commit if that worked, roll back if either failed. -/
def attempt (fault : Fault) (stmt : D → Option D) (c : Connection D) : Connection D :=
  match c.execute (fault.statement stmt) with
  | (true, c')  => if fault = .commit then c'.rollback else c'.commit
  | (false, c') => c'.rollback

/-- The state an attempt leaves, if nothing else is going on. -/
def effect (fault : Fault) (stmt : D → Option D) (d : D) : D :=
  if fault = .none then (stmt d).getD d else d

/-- **An attempt is atomic.** -/
theorem attempt_of_idle (fault : Fault) (stmt : D → Option D) (d : D) :
    (idle d).attempt fault stmt = idle (effect fault stmt d) := by
  cases hd : stmt d <;> cases fault <;>
    simp [attempt, execute, Fault.statement, effect, hd, idle, commit, rollback]

/-- Whatever was going on before, an attempt ends it. -/
theorem attempt_eq_idle (fault : Fault) (stmt : D → Option D) (c : Connection D) :
    c.attempt fault stmt = idle (c.attempt fault stmt).committed := by
  unfold attempt
  split
  · split
    · rfl
    · unfold commit
      split <;> rfl
  · rfl

/-- Several attempts, each on its own, have their effects one after the other. -/
theorem attempts_of_idle (fault : A → Fault) (stmt : A → D → Option D) (as : List A) (d : D) :
    as.foldl (fun c a => c.attempt (fault a) (stmt a)) (idle d) =
      idle (as.foldl (fun d a => effect (fault a) (stmt a) d) d) := by
  induction as generalizing d with
  | nil => rfl
  | cons a as ih => rw [List.foldl_cons, List.foldl_cons, attempt_of_idle, ih]

end Connection

end RsoVoting
