import Vault.Health.Heartbeat

/-! `FailureDetector`: silence moves a node to `SUSPECT` and from there to `UNAVAILABLE`, and the
replicas of an unavailable node are handed to repair. The two delays are in the unit of `Time`. -/

namespace Vault.Health

open Vault.Common Vault.Metadata Vault.Storage Vault.Lib Vault.Lib.Script Vault.Integrity

structure Delays where
  suspectAfter : Time
  unavailableAfter : Time
  suspectAfter_pos : 0 < suspectAfter
  suspectAfter_lt : suspectAfter < unavailableAfter

def checkDelays (suspectAfter unavailableAfter : Time) : Except Failure Delays :=
  if hs : 0 < suspectAfter then
    if hu : suspectAfter < unavailableAfter then .ok ⟨suspectAfter, unavailableAfter, hs, hu⟩
    else .error (.value "unavailable_after_seconds must be greater than suspect_after_seconds")
  else .error (.value "suspect_after_seconds must be greater than zero")

structure NodeTransition where
  nodeId : String
  previous : NodeState
  current : NodeState
  repairIds : List UUID := []
  deriving DecidableEq, Repr

def scheduleRepair (replicationFactor : ℕ) (replica : Replica) : Job (Option UUID) :=
  handle
    (do
      let job ← Repair.schedule replica.versionId replicationFactor (.value "node-unavailable") none
      pure (job.map RepairJob.repairId))
    fun
      | .vault _ => pure none
      | e => raise e

def abandonReplica (replicationFactor : ℕ) (replica : Replica) : Job (Option UUID) := do
  let _ ← transaction (setReplicaState (.value replica.replicaId) (.value .unavailable))
  scheduleRepair replicationFactor replica

def byVersionId (rs : List Replica) : List Replica :=
  rs.mergeSort (fun r s => r.versionId.n ≤ s.versionId.n)

def scheduleRepairsForNode (replicationFactor : ℕ) (nodeId : String) : Job (List UUID) := do
  let db ← query
  let replicas := (committedOn db nodeId).filter (fun r => r.status = .healthy)
  let repairIds ← forEach (abandonReplica replicationFactor) (byVersionId replicas)
  pure repairIds.reduceOption

def becomeSuspect (node : StorageNode) : Job NodeTransition := do
  let updated ← transaction (transitionNodeState (.value node.nodeId) (.value .suspect))
  pure { nodeId := node.nodeId, previous := node.status, current := updated.status }

def becomeUnavailable (replicationFactor : ℕ) (node : StorageNode) : Job NodeTransition := do
  let updated ← transaction (transitionNodeState (.value node.nodeId) (.value .unavailable))
  let repairIds ← scheduleRepairsForNode replicationFactor updated.nodeId
  pure
    { nodeId := node.nodeId, previous := node.status, current := updated.status,
      repairIds := repairIds }

def evaluate (delays : Delays) (replicationFactor : ℕ) (now : Time) (node : StorageNode) :
    Job (Option NodeTransition) :=
  match node.lastHeartbeatAt, node.status with
  | some last, .healthy | some last, .recovering =>
    if delays.suspectAfter ≤ now - last then some <$> becomeSuspect node else pure none
  | some last, .suspect =>
    if delays.unavailableAfter ≤ now - last then some <$> becomeUnavailable replicationFactor node
    else pure none
  | _, _ => pure none

def listNodes (db : Db) : List StorageNode := db.nodes.mergeSort (fun n m => n.nodeId ≤ m.nodeId)

def scan (delays : Delays) (replicationFactor : ℕ) (now : Time) : Job (List NodeTransition) := do
  let db ← query
  let transitions ← forEach (evaluate delays replicationFactor now) (listNodes db)
  pure transitions.reduceOption

end Vault.Health
