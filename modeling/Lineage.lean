import Lineage.Decimal.Shortest
import Lineage.Text.Quoted
import Lineage.Tracker.Basic
import Lineage.Graph.Remote
import Lineage.Graph.Recorder
import Lineage.Graph.OperationText
import Lineage.Session.ConfigText
import Lineage.Audit.Journal
import Lineage.Audit.FlagText
import Lineage.Diagnostics
import Lineage.RingBuffer.Crew
import Lineage.RingBuffer.Machine
import Lineage.Session.Basic
import Lineage.Session.Stages
import Lineage.Session.Threads
import Lineage.CommandLine.Run
import Lineage.Main
import Lineage.Proofs.Tracker.Coherence
import Lineage.Proofs.RingBuffer.CrewWork
import Lineage.Proofs.RingBuffer.Delivery
import Lineage.Proofs.Session.Digest
import Lineage.Proofs.Session.Flow
import Lineage.Proofs.Session.Account
import Lineage.Proofs.Session.Commitment
import Lineage.Proofs.Session.Progress
import Lineage.Proofs.Session.Schedule
import Lineage.Proofs.Tracker.Career
import Lineage.Proofs.Tracker.Naming
import Lineage.Proofs.Tracker.Rearrangement
import Lineage.Proofs.Audit.Reader
import Lineage.Proofs.Session.Failure
import Lineage.Proofs.Graph.MemoryStore
import Lineage.Proofs.Graph.Transactions
import Lineage.Proofs.Text.Integer
import Lineage.Proofs.Session.History
import Lineage.Proofs.Session.Invariant
import Lineage.Proofs.Session.Restart
import Lineage.Proofs.Session.Split
import Lineage.Proofs.Json.Text
import Lineage.Proofs.Json.Number
import Lineage.Proofs.Json.Skip
import Lineage.Proofs.Audit.Meaning
import Lineage.Proofs.Audit.Printing
import Lineage.Proofs.Audit.RoundTrip
import Lineage.Proofs.Graph.MissingNodes
import Lineage.Proofs.RingBuffer.Waiting
import Lineage.Proofs.RingBuffer.Simulation
import Lineage.Proofs.RingBuffer.Exactness
import Lineage.Proofs.Session.Fallen
import Lineage.Proofs.Session.Completion
import Lineage.Proofs.Tracker.Succession
import Lineage.Proofs.Tracker.Counting
import Lineage.Proofs.Tracker.Requests
import Lineage.Proofs.Tracker.Liveness
import Lineage.Proofs.Tracker.Descent
import Lineage.Proofs.Audit.LineByLine
import Lineage.Proofs.Graph.Dialogue
import Lineage.Proofs.Graph.QueryTokens
import Lineage.Proofs.Text.Pieces
import Lineage.Proofs.Graph.QuerySteps
import Lineage.Proofs.Graph.BatchReading
import Lineage.Proofs.Graph.PropertyGraph
import Lineage.Proofs.Graph.StoredProcesses
import Lineage.Proofs.Graph.RowByRow
import Lineage.Proofs.Audit.Concatenation
import Lineage.Proofs.Audit.Truncation
import Lineage.Proofs.Audit.NumericFields
import Lineage.Proofs.Json.SkippedStrings
import Lineage.Proofs.Audit.Encoding
import Lineage.Proofs.Session.Totals
import Lineage.Proofs.RingBuffer.Habit
import Lineage.Proofs.RingBuffer.Misuse
import Lineage.Proofs.RingBuffer.Retaking
import Lineage.Proofs.Session.RingUse
import Lineage.Proofs.Audit.Masks
import Lineage.Proofs.RingBuffer.Floors
import Lineage.Proofs.RingBuffer.Overlap
import Lineage.Proofs.Graph.OperationLists
import Lineage.Proofs.Session.Shutdown
