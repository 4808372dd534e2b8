import Courier.Agent.Session
import Courier.Audit.Desk
import Courier.Console.Run
import Courier.Feed.Checkpoint
import Courier.Health.Broadcast
import Courier.Main
import Courier.Rehearsal.Request
import Courier.Storage.Local
import Courier.Store.Snapshot
import Courier.Web.Download
import Courier.Web.Gateway
import Courier.Proofs.Scheduler.Ledger
import Courier.Proofs.Scheduler.Moves
import Courier.Proofs.Scheduler.Ownership
import Courier.Proofs.Scheduler.Agreement
import Courier.Proofs.Scheduler.Recovery
import Courier.Proofs.Scheduler.Cancellation
import Courier.Proofs.Scheduler.Overruling
import Courier.Proofs.Scheduler.Deletions
import Courier.Proofs.Scheduler.Statuses
import Courier.Proofs.Scheduler.Crash
import Courier.Proofs.Scheduler.Blocking
import Courier.Proofs.Scheduler.Reports
import Courier.Proofs.Scheduler.Slots
import Courier.Proofs.Scheduler.Gathering
import Courier.Proofs.Scheduler.Order
import Courier.Proofs.Scheduler.Budget
import Courier.Proofs.Scheduler.Wakeup
import Courier.Proofs.Scheduler.Requested
import Courier.Proofs.Scheduler.Outcomes
import Courier.Proofs.Scheduler.Interruption
import Courier.Proofs.Scheduler.Announcements
import Courier.Proofs.Health.Episodes
import Courier.Proofs.Health.Protocol
import Courier.Proofs.Health.Threshold
import Courier.Proofs.Health.Reconnection
import Courier.Proofs.Health.Pauses
import Courier.Proofs.Scheduler.Records
import Courier.Proofs.Scheduler.Callers
import Courier.Proofs.Scheduler.Precedence
import Courier.Proofs.Scheduler.Rollback
import Courier.Proofs.Audit.Conservation
import Courier.Proofs.Schema.Migration
import Courier.Proofs.Store.Disk
import Courier.Proofs.Store.Refinement
import Courier.Proofs.Files.Effects
import Courier.Proofs.Storage.Visibility
import Courier.Proofs.Storage.Outcome
import Courier.Proofs.Storage.Rollback
import Courier.Proofs.Storage.Interference
import Courier.Proofs.Storage.Confinement
import Courier.Proofs.Schema.Validation
import Courier.Proofs.Console.Deletion
import Courier.Proofs.Schema.Creation
import Courier.Proofs.Schema.Remains
import Courier.Proofs.Store.Details
import Courier.Store.Transaction
import Courier.Proofs.Store.Deletion
import Courier.Proofs.Json.Records
import Courier.Proofs.Scheduler.Corruption
import Courier.Proofs.Scheduler.Refusal
import Courier.Proofs.Scheduler.Delivery
import Courier.Proofs.Json.Tasks
import Courier.Proofs.Feed.Stopped
