import Vault.Health.FailureDetector
import Vault.Rebalance.Migration
import Vault.Lib.Settling

/-! The background tasks of `worker/tasks.py` that run under `session_scope`. The scope rolls the
session back on every exit, so a task keeps only what has been committed by then. -/

namespace Vault.Worker

open Vault.Common Vault.Metadata Vault.Storage Vault.Lib Vault.Lib.Script Vault.Integrity
open Vault.Health Vault.Rebalance

structure Settings where
  replicationFactor : ℕ
  maxAttempts : ℕ
  suspectAfter : Time
  unavailableAfter : Time
  replicationFactor_pos : 1 ≤ replicationFactor
  maxAttempts_pos : 1 ≤ maxAttempts

def Settings.rebalance (settings : Settings) : Rebalance.Config :=
  ⟨settings.replicationFactor, settings.maxAttempts, settings.replicationFactor_pos,
    settings.maxAttempts_pos⟩

def enqueueRepair (result : IntegrityResult) : Job (Option String) :=
  match result.repairId with
  | none => pure none
  | some repairId => some <$> request (.enqueue result.versionId repairId)

def verifyReplica (settings : Settings) (replicaId : UUID) : Job (IntegrityResult × Option String) := do
  let result ← Integrity.verifyReplica settings.replicationFactor replicaId
  let taskId ← enqueueRepair result
  pure (result, taskId)

structure ScanReport where
  nodeId : String
  checked : ℕ
  corrupted : ℕ
  repairTaskIds : List String
  deriving DecidableEq, Repr

def scanNode (settings : Settings) (nodeId : String) : Job ScanReport := do
  let results ← Integrity.scanNode settings.replicationFactor nodeId
  let taskIds ← forEach enqueueRepair results
  pure
    { nodeId := nodeId, checked := results.countP IntegrityResult.checked,
      corrupted := results.countP IntegrityResult.corrupted, repairTaskIds := taskIds.reduceOption }

def rebalanceNode (settings : Settings) (nodeId : String) : Job (List RebalanceResult) :=
  drainNode settings.rebalance nodeId

inductive PollError
  | client (message : String)
  | validation
  deriving DecidableEq, Repr

def pollNode (node : StorageNode) : Job (Except PollError HeartbeatPayload) := do
  let answer ← request (.poll node.nodeId)
  match answer with
  | .error (.client e) => pure (.error (.client e.message))
  | .error e => raise e
  | .ok (health, stats) =>
    if health.nodeId ≠ node.nodeId ∨ health.status.toLower ≠ "healthy" then
      pure (.error (.client
        "Storage node health response is not healthy or has mismatched identity."))
    else do
      let now ← Job.now
      match normalizePayload node.nodeId stats.capacityBytes stats.usedBytes now with
      | some payload => pure (.ok payload)
      | none => pure (.error .validation)

inductive HealthEntry
  | heartbeat (nodeId : String) (status : NodeState) (accepted : Bool)
  | transition (t : NodeTransition)
  | pollFailure (nodeId : String) (error : PollError)
  deriving DecidableEq, Repr

def ingestPoll (settings : Settings) :
    StorageNode × Except PollError HeartbeatPayload → Job HealthEntry
  | (node, .error e) => pure (.pollFailure node.nodeId e)
  | (node, .ok payload) => do
    let result ← if node.status = .unavailable then
        ingestAndRecover settings.replicationFactor payload
      else ingest payload
    pure (.heartbeat node.nodeId result.status result.accepted)

def enqueueJob (repairId : UUID) : Job Unit := do
  let db ← query
  match db.repairJob? repairId with
  | some job => do
    let _ ← request (.enqueue job.versionId repairId)
    pure ()
  | none => pure ()

def enqueueRepairs (t : NodeTransition) : Job HealthEntry := do
  let _ ← forEach enqueueJob t.repairIds
  pure (.transition t)

def polledNodes (db : Db) : List StorageNode :=
  (listNodes db).filter (fun n => n.status ∉ [.draining, .removed])

def processNodeHealth (settings : Settings) : Job (List HealthEntry) := do
  let db ← query
  let polled ← forEach pollNode (polledNodes db)
  let heartbeats ← forEach (ingestPoll settings) ((polledNodes db).zip polled)
  let delays ← lift (checkDelays settings.suspectAfter settings.unavailableAfter)
  let now ← Job.now
  let transitions ← scan delays settings.replicationFactor now
  let entries ← forEach enqueueRepairs transitions
  pure (heartbeats ++ entries)

inductive Task
  | processNodeHealth
  | verifyReplica (replicaId : UUID)
  | scanNode (nodeId : String)
  | rebalanceNode (nodeId : String)
  deriving DecidableEq, Repr

inductive Report
  | health (entries : List HealthEntry)
  | integrity (result : IntegrityResult) (repairTaskId : Option String)
  | scan (report : ScanReport)
  | migrations (results : List RebalanceResult)
  deriving DecidableEq, Repr

def Task.job (settings : Settings) : Task → Job Report
  | .processNodeHealth => Report.health <$> Worker.processNodeHealth settings
  | .verifyReplica replicaId => do
    let (result, taskId) ← Worker.verifyReplica settings replicaId
    pure (.integrity result taskId)
  | .scanNode nodeId => Report.scan <$> Worker.scanNode settings nodeId
  | .rebalanceNode nodeId => Report.migrations <$> Worker.rebalanceNode settings nodeId

end Vault.Worker
