import Vault.Integrity.Verification
import Vault.Metadata.Nodes

/-! `PartitionRecoveryManager`: every known replica of a `RECOVERING` node is measured, and the node
becomes `HEALTHY` only after a pass that left nothing unresolved. The result doubles as the
accumulator of the pass. -/

namespace Vault.Recovery

open Vault.Common Vault.Metadata Vault.Storage Vault.Lib Vault.Lib.Script Vault.Integrity

structure RecoveryResult where
  nodeId : String
  checkedReplicas : ℕ := 0
  healthyReplicas : ℕ := 0
  missingReplicaIds : List UUID := []
  corruptedReplicaIds : List UUID := []
  repairIds : List UUID := []
  unresolvedReplicaIds : List UUID := []
  complete : Bool := true
  errors : List String := []
  deriving DecidableEq, Repr

def knownReplicas (db : Db) (nodeId : String) : List Replica :=
  byReplicaId ((committedOn db nodeId).filter (fun r => r.status ≠ .failed))

def markVerifiedReplica (replica : Replica) (measured : Blob) : Job Unit := do
  if replica.status = .healthy then
    let now ← Job.now
    let _ ← transaction (recordVerified now replica.replicaId measured.checksum measured.sizeBytes)
  else if replica.status = .failed then pure ()
  else
    if replica.status ∈ [.pending, .corrupted, .stale, .unavailable] then
      let _ ← transaction (setReplicaState (.value replica.replicaId) (.value .repairing))
    else
      require (replica.status = .repairing) (.vault (invalidState
        s!"Replica {replica.replicaId} cannot be reconciled from state {replica.status}."))
    let now ← Job.now
    let _ ← transaction
      (markVerified Replica.status now replica.replicaId measured.checksum measured.sizeBytes)

def scheduleRepair (replicationFactor : ℕ) (versionId : UUID) (replica : Replica) (reason : String) :
    Job (Option UUID × Option String) :=
  handle
    (do
      let job ← Repair.schedule versionId replicationFactor (.value reason) (some replica)
      pure (job.map RepairJob.repairId, none))
    fun
      | .vault e => pure (none, some e.message)
      | e => raise e

def repairDamaged (replicationFactor : ℕ) (version : Version) (replica : Replica)
    (state : ReplicaState) (reason : String) (acc : RecoveryResult) : Job RecoveryResult := do
  if replica.status = .healthy then
    let _ ← transaction (setReplicaState (.value replica.replicaId) (.value state))
  let (repairId, repairError) ← scheduleRepair replicationFactor version.versionId replica reason
  pure
    { acc with
      repairIds := acc.repairIds ++ repairId.toList
      unresolvedReplicaIds :=
        acc.unresolvedReplicaIds ++ repairError.toList.map (fun _ => replica.replicaId)
      errors := acc.errors ++ repairError.toList.map (fun e => s!"{replica.replicaId}: {e}") }

def reportDamaged (replicationFactor : ℕ) (version : Version) (replica : Replica)
    (acc : RecoveryResult) : Job RecoveryResult :=
  repairDamaged replicationFactor version replica .corrupted "partition-recovery-integrity-mismatch"
    { acc with
      checkedReplicas := acc.checkedReplicas + 1
      corruptedReplicaIds := acc.corruptedReplicaIds ++ [replica.replicaId] }

def reportMissing (replicationFactor : ℕ) (version : Version) (replica : Replica)
    (acc : RecoveryResult) : Job RecoveryResult :=
  repairDamaged replicationFactor version replica .unavailable "partition-recovery-missing"
    { acc with
      checkedReplicas := acc.checkedReplicas + 1
      missingReplicaIds := acc.missingReplicaIds ++ [replica.replicaId] }

def reconcileReplica (replicationFactor : ℕ) (node : StorageNode) (replica : Replica)
    (acc : RecoveryResult) : Job RecoveryResult := do
  let db ← query
  let version ← demand (db.version? replica.versionId)
    (.vault (objectNotFound (toString replica.versionId)))
  let answer ← request (.verify node.nodeId version.versionId)
  match raiseOnInvalid answer with
  | .ok measured =>
    if measured.Matches version then
      markVerifiedReplica replica measured
      pure
        { acc with
          checkedReplicas := acc.checkedReplicas + 1, healthyReplicas := acc.healthyReplicas + 1 }
    else reportDamaged replicationFactor version replica acc
  | .error e =>
    match e.kind with
    | .objectNotFound => reportMissing replicationFactor version replica acc
    | .integrity => do
      let acc ← reportDamaged replicationFactor version replica acc
      pure { acc with errors := acc.errors ++ [s!"{replica.replicaId}: {e.message}"] }
    | _ =>
      pure
        { acc with
          unresolvedReplicaIds := acc.unresolvedReplicaIds ++ [replica.replicaId]
          complete := false
          errors := acc.errors ++ [s!"{replica.replicaId}: {e.message}"] }

def reconcileReplicas (replicationFactor : ℕ) (node : StorageNode) :
    List Replica → RecoveryResult → Job RecoveryResult
  | [], acc => pure acc
  | replica :: rest, acc => do
    let acc ← reconcileReplica replicationFactor node replica acc
    reconcileReplicas replicationFactor node rest acc

def RecoveryResult.close (r : RecoveryResult) : RecoveryResult :=
  { r with complete := r.complete && r.unresolvedReplicaIds.isEmpty }

def reconcileNode (replicationFactor : ℕ) (nodeId : String) : Job RecoveryResult := do
  let db ← query
  let node ← demand (db.node? nodeId) (.vault (objectNotFound nodeId))
  Script.require (node.status = .recovering) (.vault (invalidState
    s!"Node {nodeId} must be RECOVERING before reconciliation; got {node.status}."))
  let result ← reconcileReplicas replicationFactor node (knownReplicas db nodeId) { nodeId := nodeId }
  remark (.reconciled nodeId result.close.complete)
  pure result.close

def reconcileAndMarkHealthy (replicationFactor : ℕ) (nodeId : String) : Job RecoveryResult := do
  let result ← reconcileNode replicationFactor nodeId
  if result.complete then
    let db ← query
    let node ← demand (db.node? nodeId) (.vault (objectNotFound nodeId))
    if node.status = .recovering then
      let _ ← transaction (transitionNodeState (.value nodeId) (.value .healthy))
  pure result

end Vault.Recovery
