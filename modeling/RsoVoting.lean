import RsoVoting.Aggregator.Age
import RsoVoting.Aggregator.ExactCount
import RsoVoting.Aggregator.FailOver
import RsoVoting.Aggregator.FailedTransactions
import RsoVoting.Aggregator.FirstCycle
import RsoVoting.Aggregator.GroupedCounts
import RsoVoting.Aggregator.Ledger
import RsoVoting.Aggregator.MongoHandler
import RsoVoting.Aggregator.OpenConnections
import RsoVoting.Aggregator.PartialDictionaries
import RsoVoting.Aggregator.PostgresHandler
import RsoVoting.Aggregator.Replicas
import RsoVoting.Aggregator.ResultTables
import RsoVoting.Aggregator.RsoAggregator
import RsoVoting.Aggregator.Statistics
import RsoVoting.Configuration
import RsoVoting.DataGenerator.GetPesel
import RsoVoting.DataGenerator.VotingData
import RsoVoting.Document
import RsoVoting.EndToEnd.Charts
import RsoVoting.EndToEnd.Packages
import RsoVoting.EndToEnd.PostedVotes
import RsoVoting.EndToEnd.PublishedVotes
import RsoVoting.Lib.Calendar
import RsoVoting.Lib.DateFormat
import RsoVoting.Lib.Framing
import RsoVoting.Lib.Grouping
import RsoVoting.Lib.Handles
import RsoVoting.Lib.Interleave
import RsoVoting.Lib.Replication
import RsoVoting.Lib.Runs
import RsoVoting.Lib.Shares
import RsoVoting.Lib.Split
import RsoVoting.Lib.Table
import RsoVoting.Lib.Transaction
import RsoVoting.TwoPhase.AllOrNothing
import RsoVoting.TwoPhase.CommitActor
import RsoVoting.TwoPhase.ConfirmedRollback
import RsoVoting.TwoPhase.ConnectionInvariant
import RsoVoting.TwoPhase.ConnectionRules
import RsoVoting.TwoPhase.Coordination
import RsoVoting.TwoPhase.DbAgentActor
import RsoVoting.TwoPhase.Deadline
import RsoVoting.TwoPhase.EarlyConfirmation
import RsoVoting.TwoPhase.Frame
import RsoVoting.TwoPhase.Framing
import RsoVoting.TwoPhase.Interference
import RsoVoting.TwoPhase.Messages
import RsoVoting.TwoPhase.Refinement
import RsoVoting.TwoPhase.RunningCommit
import RsoVoting.TwoPhase.Selection
import RsoVoting.TwoPhase.Storage
import RsoVoting.TwoPhase.Termination
import RsoVoting.TwoPhase.TimedRuns
import RsoVoting.TwoPhase.TwoPhaseCommitActor
import RsoVoting.Web2py.Candidates
import RsoVoting.Web2py.GroupedCharts
import RsoVoting.Web2py.PercentageCharts
