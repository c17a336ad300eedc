import Vault.Integrity.Verification
import Vault.Metadata.Nodes
import Vault.Placement.Selection

/-! `RebalanceManager`: a replica is copied to the target and verified there, and then the source
bytes and the source row are removed if enough healthy replicas remain. Draining a node migrates
every replica of a committed version and removes the node when no row is left. -/

namespace Vault.Metadata

open Vault.Common

def RebalanceJob.mark (status : JobStatus) (error : Option String) (j : RebalanceJob) : RebalanceJob :=
  { j with status := status, lastError := error }

def RebalanceJob.start (j : RebalanceJob) : RebalanceJob :=
  { j with status := .running, attempts := j.attempts + 1, lastError := none }

end Vault.Metadata

namespace Vault.Rebalance

open Vault.Common Vault.Metadata Vault.Storage Vault.Lib Vault.Lib.Script Vault.Integrity
open Vault.Repair (Active healthyReplicas nodeUnavailable)
open Vault.Placement (room roomierFirst)

structure RebalanceResult where
  rebalanceId : UUID
  versionId : UUID
  sourceNodeId : String
  targetNodeId : String
  status : JobStatus
  attempts : ℕ
  sourceRemoved : Bool
  deriving DecidableEq, Repr

def rebalanceResult (job : RebalanceJob) (sourceRemoved : Bool) : RebalanceResult :=
  { rebalanceId := job.rebalanceId, versionId := job.versionId, sourceNodeId := job.sourceNodeId,
    targetNodeId := job.targetNodeId, status := job.status, attempts := job.attempts,
    sourceRemoved := sourceRemoved }

structure Config where
  replicationFactor : ℕ
  maxAttempts : ℕ
  replicationFactor_pos : 1 ≤ replicationFactor
  maxAttempts_pos : 1 ≤ maxAttempts

lemma one_copy_pos : 1 ≤ 1 := le_rfl

lemma three_attempts_pos : 1 ≤ 3 := by decide

def findVersion (versionId : UUID) : Job Version := do
  let db ← query
  let version ← demand (db.version? versionId) (.vault (objectNotFound (toString versionId)))
  require (version.state = .committed)
    (.vault (invalidState s!"Version {versionId} must be COMMITTED before rebalancing."))
  pure version

def findNode (nodeId : String) : Job StorageNode := do
  let db ← query
  demand (db.node? nodeId) (.vault (objectNotFound nodeId))

def activeJob (db : Db) (versionId : UUID) (targetNodeId : String) : Option RebalanceJob :=
  db.rebalanceJobs.find? (fun j => j.versionId = versionId ∧ j.targetNodeId = targetNodeId ∧
    Active j.status)

def insertRebalanceJob (job : RebalanceJob) (db : Db) : Db :=
  { db with rebalanceJobs := db.rebalanceJobs ++ [job], nextId := db.nextId + 1 }

def findOrCreateJob (versionId : UUID) (sourceNodeId targetNodeId : String) : Job RebalanceJob := do
  let db ← query
  match activeJob db versionId targetNodeId with
  | some job => pure job
  | none => do
    let job : RebalanceJob :=
      { rebalanceId := db.newUuid, versionId := versionId, sourceNodeId := sourceNodeId,
        targetNodeId := targetNodeId }
    save (insertRebalanceJob job)
    pure job

def createJob (versionId : UUID) (sourceNodeId targetNodeId : String) : Job RebalanceJob := do
  let version ← findVersion versionId
  require (sourceNodeId ≠ targetNodeId)
    (.value "rebalance source and target must be different nodes")
  let _ ← findNode sourceNodeId
  let targetNode ← findNode targetNodeId
  let db ← query
  let source ← demand (db.replicaOn? versionId sourceNodeId)
    (.vault (objectNotFound s!"Replica for version {versionId} on {sourceNodeId}"))
  require (source.status = .healthy)
    (.vault (invalidState s!"Rebalance source replica must be HEALTHY; got {source.status}."))
  require (targetNode.status = .healthy)
    (.vault (nodeUnavailable s!"Rebalance target node {targetNodeId} is not healthy."))
  require (version.sizeBytes ≤ targetNode.freeBytes)
    (.vault ⟨.storageFull, s!"Rebalance target node {targetNodeId} lacks capacity.", 507⟩)
  match db.replicaOn? versionId targetNodeId with
  | some existing => raise (.vault (invalidState
      s!"Target node {targetNodeId} already has replica {existing.replicaId}."))
  | none => findOrCreateJob versionId sourceNodeId targetNodeId

def findOrCreateReplica (job : RebalanceJob) : Job Replica := do
  let db ← query
  match db.replicaOn? job.versionId job.targetNodeId with
  | some replica => pure replica
  | none => transaction (createReplica (.value job.versionId) (.value job.targetNodeId))

def enterCopying (replica : Replica) : Job Replica := do
  if replica.status = .healthy then pure replica
  else if replica.status = .pending then
    transaction (setReplicaState (.value replica.replicaId) (.value .copying))
  else if replica.status ∈ [.corrupted, .stale, .unavailable] then
    let _ ← transaction (setReplicaState (.value replica.replicaId) (.value .repairing))
    transaction (setReplicaState (.value replica.replicaId) (.value .copying))
  else
    require (replica.status = .copying) (.vault (invalidState
      s!"Rebalance target replica cannot enter COPYING from {replica.status}."))
    pure replica

def targetReplica (job : RebalanceJob) : Job Replica := do
  let replica ← findOrCreateReplica job
  enterCopying replica

def matchesMetadata (measured : Blob) (version : Version) (message : String) : Job Unit :=
  require (measured.Matches version) (.client (integrity message))

def targetVerified (job : RebalanceJob) (version : Version) : Option Replica → Job Bool
  | none => pure false
  | some replica =>
    if replica.status = .healthy then do
      let measured ← Job.verify job.targetNodeId version.versionId
      if measured.Matches version then pure true
      else
        let _ ← transaction (setReplicaState (.value replica.replicaId) (.value .corrupted))
        pure false
    else pure false

def verifySource (job : RebalanceJob) (version : Version) : Job Unit := do
  let db ← query
  require (∃ r ∈ healthyReplicas db job.versionId, r.nodeId = job.sourceNodeId)
    (.vault (invalidState s!"Verified healthy source {job.sourceNodeId} is no longer available."))
  let measured ← Job.verify job.sourceNodeId version.versionId
  matchesMetadata measured version "Rebalance source verification does not match metadata."

def copyToTarget (job : RebalanceJob) (version : Version) : Job Unit := do
  verifySource job version
  let replica ← targetReplica job
  Job.delete job.targetNodeId version.versionId
  Job.copy job.sourceNodeId job.targetNodeId version.versionId
  let measured ← Job.verify job.targetNodeId version.versionId
  matchesMetadata measured version "Rebalance target verification does not match metadata."
  let now ← Job.now
  let _ ← transaction
    (markVerified Replica.status now replica.replicaId measured.checksum measured.sizeBytes)
  pure ()

def removeSource (cfg : Config) (job : RebalanceJob) (version : Version) : Job Unit := do
  let db ← query
  require (cfg.replicationFactor < (healthyReplicas db job.versionId).length) (.vault (invalidState
    "Rebalance target is healthy but removing the source would violate replication factor."))
  Job.delete job.sourceNodeId version.versionId
  let db ← query
  match db.replicaOn? job.versionId job.sourceNodeId with
  | some source => do
    let _ ← transaction (removeReplica (.value source.replicaId))
    pure ()
  | none => pure ()

def markJob (rebalanceId : UUID) (status : JobStatus) (error : Option String) (db : Db) : Db :=
  db.amendRebalanceJob rebalanceId (RebalanceJob.mark status error)

def moveReplica (cfg : Config) (job : RebalanceJob) (version : Version) (target : Option Replica) :
    Job RebalanceResult := do
  let verified ← targetVerified job version target
  if verified then pure () else copyToTarget job version
  removeSource cfg job version
  save (markJob job.rebalanceId .succeeded none)
  pure (rebalanceResult (job.mark .succeeded none) true)

def failJob (cfg : Config) (job : RebalanceJob) (e : Failure) (message : String) :
    Job RebalanceResult := do
  let status := if cfg.maxAttempts ≤ job.attempts then JobStatus.failed else .pending
  save (markJob job.rebalanceId status (some message))
  raise e

def recoverJob (cfg : Config) (job : RebalanceJob) : Failure → Job RebalanceResult
  | .client e => failJob cfg job (.client e) e.message
  | .vault e => failJob cfg job (.vault e) (toString e)
  | e => raise e

def startJob (cfg : Config) (job : RebalanceJob) : Job RebalanceResult := do
  let version ← findVersion job.versionId
  let _ ← findNode job.sourceNodeId
  let _ ← findNode job.targetNodeId
  let db ← query
  save (fun db => db.amendRebalanceJob job.rebalanceId RebalanceJob.start)
  handle (moveReplica cfg job.start version (db.replicaOn? job.versionId job.targetNodeId))
    (recoverJob cfg job.start)

def runJob (cfg : Config) (rebalanceId : UUID) : Job RebalanceResult := do
  let db ← query
  let job ← demand (db.rebalanceJob? rebalanceId) (.vault (objectNotFound (toString rebalanceId)))
  if job.status = .succeeded then pure (rebalanceResult job true)
  else if job.status = .failed ∧ cfg.maxAttempts ≤ job.attempts then pure (rebalanceResult job false)
  else startJob cfg job

def migrateReplica (cfg : Config) (versionId : UUID) (sourceNodeId targetNodeId : String) :
    Job RebalanceResult := do
  let job ← createJob versionId sourceNodeId targetNodeId
  runJob cfg job.rebalanceId

/-- The query of `_eligible_target`; the exclusion is added to it only if there is one. -/
def eligibleNodes (db : Db) (version : Version) (excluded : List String) : List StorageNode :=
  ((db.nodes.filter (fun n => n.status = .healthy ∧ version.sizeBytes ≤ room n ∧
    (¬∃ r ∈ db.replicas, r.versionId = version.versionId ∧ r.nodeId = n.nodeId) ∧
    (excluded ≠ [] → n.nodeId ∉ excluded))).mergeSort roomierFirst).take 1

def eligibleTarget (version : Version) (excluded : List String) : Job StorageNode := do
  let db ← query
  demand (eligibleNodes db version excluded).head?
    (.vault ⟨.insufficientReplicas,
      s!"No healthy target node can hold version {version.versionId}.", 503⟩)

def drainReplica (cfg : Config) (nodeId : String) (replicaId : UUID) : Job (Option RebalanceResult) := do
  let db ← query
  match db.replica? replicaId with
  | none => pure none
  | some replica => do
    require (replica.status = .healthy) (.vault (invalidState
      (s!"Cannot drain node {nodeId}: replica {replica.replicaId} " ++
        s!"is {replica.status}; repair it before migration.")))
    let version ← findVersion replica.versionId
    let target ← eligibleTarget version [nodeId]
    let result ← migrateReplica cfg version.versionId nodeId target.nodeId
    pure (some result)

def enterDraining (nodeId : String) : Job StorageNode := do
  let node ← findNode nodeId
  if node.status = .healthy then
    let _ ← transaction (transitionNodeState (.value nodeId) (.value .draining))
    findNode nodeId
  else pure node

def retireNode (nodeId : String) : Job Unit := do
  let db ← query
  if db.replicas.filter (fun r => r.nodeId = nodeId) = [] then
    let _ ← transaction (transitionNodeState (.value nodeId) (.value .removed))
    pure ()
  else pure ()

def drainNode (cfg : Config) (nodeId : String) : Job (List RebalanceResult) := do
  let node ← enterDraining nodeId
  require (node.status = .draining) (.vault (invalidState
    s!"Node {nodeId} must be DRAINING before migration; got {node.status}."))
  let db ← query
  let results ← forEach (drainReplica cfg nodeId)
    ((byReplicaId (committedOn db nodeId)).map Replica.replicaId)
  retireNode nodeId
  pure results.reduceOption

end Vault.Rebalance
