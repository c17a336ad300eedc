import Vault.Common.Constants
import Vault.Common.Errors
import Vault.Common.RateLimit
import Vault.Common.RetryAfter
import Vault.Common.SlidingWindow
import Vault.Common.Values
import Vault.Gateway.Availability
import Vault.Gateway.Deletion
import Vault.Gateway.DeletionCrash
import Vault.Gateway.DeletionRetries
import Vault.Gateway.DeletionSteps
import Vault.Gateway.Download
import Vault.Gateway.RaceFrames
import Vault.Gateway.RaceMoves
import Vault.Gateway.Races
import Vault.Gateway.Receipts
import Vault.Gateway.RoundTrip
import Vault.Gateway.Staging
import Vault.Gateway.Streaming
import Vault.Gateway.Upload
import Vault.Gateway.UploadAtomicity
import Vault.Gateway.UploadFrames
import Vault.Health.Confluence
import Vault.Health.FailureDetector
import Vault.Health.Gate
import Vault.Health.Guarded
import Vault.Health.Heartbeat
import Vault.Health.HeartbeatEffects
import Vault.Health.Reconciled
import Vault.Health.ScanEffects
import Vault.Health.Silence
import Vault.Health.Soundness
import Vault.Integrity.Attribution
import Vault.Integrity.Condemned
import Vault.Integrity.Detection
import Vault.Integrity.Jobs
import Vault.Integrity.Scan
import Vault.Integrity.Verification
import Vault.Jobs.Counting
import Vault.Jobs.Driver
import Vault.Jobs.Lifecycle
import Vault.Lib.Attempts
import Vault.Lib.Blocks
import Vault.Lib.Deliveries
import Vault.Lib.Emission
import Vault.Lib.Folds
import Vault.Lib.OpenTransaction
import Vault.Lib.Program
import Vault.Lib.Rules
import Vault.Lib.Runs
import Vault.Lib.Script
import Vault.Lib.Session
import Vault.Lib.Settling
import Vault.Lib.Simulation
import Vault.Lib.Sorting
import Vault.Lib.Steps
import Vault.Lib.Table
import Vault.Lib.Transaction
import Vault.Metadata.Atomicity
import Vault.Metadata.Batches
import Vault.Metadata.Commits
import Vault.Metadata.CurrentVersion
import Vault.Metadata.Effects
import Vault.Metadata.Lifecycle
import Vault.Metadata.Models
import Vault.Metadata.Nodes
import Vault.Metadata.Operations
import Vault.Metadata.ReplicaEvidence
import Vault.Metadata.Replicas
import Vault.Metadata.Validation
import Vault.Metadata.VersionNumbers
import Vault.Metadata.Versions
import Vault.Metadata.WellFormed
import Vault.Placement.Agreement
import Vault.Placement.Selection
import Vault.Rebalance.Coverage
import Vault.Rebalance.CrashSafety
import Vault.Rebalance.Delivery
import Vault.Rebalance.Draining
import Vault.Rebalance.Exposure
import Vault.Rebalance.Migration
import Vault.Rebalance.Removal
import Vault.Rebalance.Safety
import Vault.Recovery.Accounts
import Vault.Recovery.Certification
import Vault.Recovery.Pass
import Vault.Recovery.Reconciliation
import Vault.Repair.Advance
import Vault.Repair.Choices
import Vault.Repair.Execution
import Vault.Repair.Loop
import Vault.Repair.Outcomes
import Vault.Repair.Overlap
import Vault.Repair.Refill
import Vault.Repair.Running
import Vault.Repair.Scheduling
import Vault.Repair.Target
import Vault.Replication.Endings
import Vault.Replication.Quorum
import Vault.Replication.Rows
import Vault.Replication.Writers
import Vault.Replication.Writes
import Vault.Storage.Accounting
import Vault.Storage.ChunkLoops
import Vault.Storage.Chunking
import Vault.Storage.Client
import Vault.Storage.Cluster
import Vault.Storage.Damage
import Vault.Storage.Disk
import Vault.Storage.Endpoints
import Vault.Storage.Engine
import Vault.Storage.EngineChanges
import Vault.Storage.EngineLedger
import Vault.Storage.EngineShelves
import Vault.Storage.FailedWrites
import Vault.Storage.Identifiers
import Vault.Storage.Measurement
import Vault.Storage.Names
import Vault.Storage.Reading
import Vault.Storage.Reports
import Vault.Storage.Restart
import Vault.Storage.Retries
import Vault.Storage.RetryAgreement
import Vault.Storage.RoundTrip
import Vault.Storage.Soundness
import Vault.Storage.Store
import Vault.Storage.Tampering
import Vault.Storage.TornDeletes
import Vault.Storage.Verification
import Vault.Storage.Wire
import Vault.Storage.WriteOnce
import Vault.Storage.WriteSteps
import Vault.Storage.WriterAgreement
import Vault.Worker.Durability
import Vault.Worker.Resumption
import Vault.Worker.Revival
import Vault.Worker.Sweep
import Vault.Worker.Tasks
