import FleetUpdate.Action
import FleetUpdate.Calendar.Clock
import FleetUpdate.Calendar.Date
import FleetUpdate.Change
import FleetUpdate.Cron.Field
import FleetUpdate.Cron.Parse
import FleetUpdate.Cron.Pattern
import FleetUpdate.Cron.Search
import FleetUpdate.Deployment.Assignment
import FleetUpdate.Deployment.Device
import FleetUpdate.Deployment.Management
import FleetUpdate.Deployment.Snapshot
import FleetUpdate.Deployment.Transition
import FleetUpdate.DistributionSet
import FleetUpdate.Engine
import FleetUpdate.Error
import FleetUpdate.Event.Basic
import FleetUpdate.Event.Sink
import FleetUpdate.Lifecycle.Assign
import FleetUpdate.Lifecycle.Cancel
import FleetUpdate.Lifecycle.Outcome
import FleetUpdate.Lifecycle.Plan
import FleetUpdate.Lifecycle.Report
import FleetUpdate.Maintenance.Duration
import FleetUpdate.Maintenance.Error
import FleetUpdate.Maintenance.Schedule
import FleetUpdate.Maintenance.Spec
import FleetUpdate.Maintenance.Years
import FleetUpdate.Metrics
import FleetUpdate.Notice
import FleetUpdate.Order
import FleetUpdate.Policy
import FleetUpdate.Program
import FleetUpdate.Proofs.Store.Rows
import FleetUpdate.Proofs.Store.Written
import FleetUpdate.Settings.Basic
import FleetUpdate.Settings.DotEnv
import FleetUpdate.Settings.DotEnv.Statement
import FleetUpdate.Settings.DotEnv.Value
import FleetUpdate.Store.Actions
import FleetUpdate.Store.Basic
import FleetUpdate.Store.Commit
import FleetUpdate.Store.Database
import FleetUpdate.Store.Error
import FleetUpdate.Store.Fault
import FleetUpdate.Store.Request
import FleetUpdate.Store.Sets
import FleetUpdate.Store.Targets
import FleetUpdate.Target
import FleetUpdate.Tenancy
import FleetUpdate.Text.Alphanumeric
import FleetUpdate.Text.Blank
import FleetUpdate.Text.Extender
import FleetUpdate.Text.Numeral
import FleetUpdate.Text.Other
import FleetUpdate.Text.Quoted
import FleetUpdate.Text.Ranges
import FleetUpdate.Text.Split
import FleetUpdate.Vocabulary.Action
import FleetUpdate.Vocabulary.Basic
import FleetUpdate.Vocabulary.CodeTable
import FleetUpdate.Vocabulary.Target
import FleetUpdate.Wire.Decode
import FleetUpdate.Wire.Record
import FleetUpdate.Wire.Value
import FleetUpdate.Proofs.Store.Consistent
import FleetUpdate.Proofs.Store.Commit
import FleetUpdate.Proofs.Store.Frame
import FleetUpdate.Proofs.Store.Revision
import FleetUpdate.Proofs.Store.Growth
import FleetUpdate.Proofs.Lifecycle.Transition
import FleetUpdate.Proofs.Lifecycle.StalePlan
import FleetUpdate.Proofs.Deployment.Calls
import FleetUpdate.Proofs.Deployment.UpToDate
import FleetUpdate.Proofs.Deployment.Promises
import FleetUpdate.Proofs.Deployment.Immediate
import FleetUpdate.Proofs.Deployment.Runs
import FleetUpdate.Proofs.Lifecycle.FreshPlan
import FleetUpdate.Proofs.Deployment.Sequential
import FleetUpdate.Proofs.Deployment.EachTarget
import FleetUpdate.Proofs.Deployment.Tasks
import FleetUpdate.Proofs.Deployment.Driving
import FleetUpdate.Proofs.Store.Ages
import FleetUpdate.Proofs.Deployment.Aging
import FleetUpdate.Proofs.Deployment.Ended
import FleetUpdate.Proofs.Deployment.Moves
import FleetUpdate.Proofs.Deployment.Coherent
import FleetUpdate.Proofs.Deployment.Dispatch
import FleetUpdate.Proofs.Deployment.Alone
import FleetUpdate.Proofs.Deployment.Tally
import FleetUpdate.Proofs.Deployment.Recorded
import FleetUpdate.Proofs.Store.Atomic
import FleetUpdate.Proofs.Deployment.Announce
import FleetUpdate.Proofs.Deployment.Course
import FleetUpdate.Proofs.Deployment.Batching
import FleetUpdate.Proofs.Deployment.Unchanged
import FleetUpdate.Proofs.Deployment.Replay
import FleetUpdate.Proofs.Store.Sets
import FleetUpdate.Proofs.Store.Integrity
import FleetUpdate.Proofs.Store.Tenants
import FleetUpdate.Proofs.Store.Agreement
import FleetUpdate.Proofs.Deployment.Sights
import FleetUpdate.Proofs.Deployment.Isolation
import FleetUpdate.Proofs.Deployment.Seen
import FleetUpdate.Proofs.Deployment.Complete
import FleetUpdate.Proofs.Deployment.Contacts
import FleetUpdate.Proofs.Store.Contents
import FleetUpdate.Proofs.Deployment.Quota
import FleetUpdate.Proofs.Deployment.Withdrawal
import FleetUpdate.Proofs.Store.LastEnded
import FleetUpdate.Proofs.Deployment.Chronicled
import FleetUpdate.Proofs.Deployment.Ascending
import FleetUpdate.Proofs.Deployment.Recalculation
import FleetUpdate.Proofs.Store.Standing
import FleetUpdate.Proofs.Store.Turnings
import FleetUpdate.Proofs.Deployment.FirstContact
import FleetUpdate.Proofs.Deployment.Deeds
import FleetUpdate.Proofs.Deployment.Partition
import FleetUpdate.Proofs.Deployment.Books
import FleetUpdate.Proofs.Deployment.Ledger
import FleetUpdate.Proofs.Lifecycle.Logged
import FleetUpdate.Proofs.Lifecycle.Held
import FleetUpdate.Proofs.Deployment.Restoration
import FleetUpdate.Proofs.Deployment.Repetition
import FleetUpdate.Proofs.Deployment.Superseding
import FleetUpdate.Proofs.Deployment.Backed
import FleetUpdate.Proofs.Deployment.Windows
import FleetUpdate.Proofs.Deployment.Spurious
import FleetUpdate.Proofs.Maintenance.Availability
import FleetUpdate.Proofs.Store.Repeated
import FleetUpdate.Proofs.Deployment.Evaluable
import FleetUpdate.Proofs.Deployment.LastCode
import FleetUpdate.Proofs.Maintenance.Overflow
import FleetUpdate.Proofs.Vocabulary.CodeTable
import FleetUpdate.Proofs.Settings.Misread
