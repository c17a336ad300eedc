import Vault.Metadata.Validation

/-! Replica operations of `MetadataManager`. `recordVerified` and `markVerified` are the transactions
of `record_replica_verification` and `mark_replica_healthy`; the latter takes the status that the
session sees in the locked row: the row's own, or the one it loaded earlier. -/

namespace Vault.Metadata

open Vault.Common Vault.Lib Vault.Lib.Transaction Vault.Lib.Transaction.Tx

def validateNodeIds : List (Arg String) → Except Failure (List String)
  | [] => .ok []
  | a :: rest => do
    let nodeId ← validateNonEmpty "node_ids must contain only non-empty strings" a
    let nodeIds ← validateNodeIds rest
    pure (nodeId :: nodeIds)

def insertReplica (versionId : UUID) (nodeId : String) (db : Db) : Db :=
  { db with
    replicas := db.replicas ++ [{ replicaId := db.newUuid, versionId := versionId, nodeId := nodeId }]
    nextId := db.nextId + 1 }

def insertReplicas (versionId : UUID) : List String → Tx (List Replica)
  | [] => pure []
  | nodeId :: nodeIds => do
    let db ← read
    write (insertReplica versionId nodeId)
    let replicas ← insertReplicas versionId nodeIds
    pure ({ replicaId := db.newUuid, versionId := versionId, nodeId := nodeId } :: replicas)

def createReplicas (versionId : Arg UUID) (nodeIds : List (Arg String)) : Tx (List Replica) := do
  let versionId ← check (validateTyped "version_id must be a UUID" versionId)
  require (nodeIds ≠ []) (.value "node_ids must contain only non-empty strings")
  let normalized ← check (validateNodeIds nodeIds)
  require normalized.Nodup (.value "node_ids must be unique non-empty strings")
  let db ← read
  require ((db.version? versionId).isSome) (.vault (objectNotFound (toString versionId)))
  let missing := normalized.filter (fun nodeId => (db.node? nodeId).isNone)
  require (missing = []) (.vault (objectNotFound (",".intercalate missing)))
  let existing := normalized.filter (fun nodeId => (db.replicaOn? versionId nodeId).isSome)
  let listed := ", ".intercalate (existing.mergeSort (fun a b => a ≤ b))
  require (existing = []) (.vault (invalidState
    s!"Replica already exists for version {versionId} on node(s) {listed}."))
  insertReplicas versionId normalized

def checkEdges (state : ReplicaState) : List Replica → Except Failure Unit
  | [] => .ok ()
  | replica :: rest =>
    if replica.status = state ∨ state ∈ replicaStateTransitions replica.status then
      checkEdges state rest
    else .error (.vault (invalidState
      s!"Cannot transition replica {replica.replicaId} from {replica.status} to {state}."))

def bindIds : List (Arg UUID) → Except Failure (List UUID)
  | [] => .ok []
  | a :: rest => do
    let replicaId ← validateTyped "replica_ids must contain UUID values" a
    let replicaIds ← bindIds rest
    pure (replicaId :: replicaIds)

def Replica.enter (state : ReplicaState) (r : Replica) : Replica := { r with status := state }

def setStatuses (ids : List UUID) (state : ReplicaState) (db : Db) : Db :=
  { db with replicas := db.replicas.map (fun r => if r.replicaId ∈ ids then r.enter state else r) }

def setReplicaStates (replicaIds : List (Arg UUID)) (state : Arg ReplicaState) : Tx (List Replica) := do
  let state ← check (validateTyped "state must be a ReplicaState" state)
  if replicaIds = [] then pure []
  else
    let ids ← check (bindIds replicaIds)
    require (state ≠ .healthy)
      (.vault (invalidState "Use mark_replica_healthy() after size/checksum verification."))
    let db ← read
    let replicas := db.replicas.filter (fun r => r.replicaId ∈ ids)
    let missing := ids.filter (fun i => i ∉ replicas.map Replica.replicaId)
    require (replicas.length = ids.dedup.length)
      (.vault (objectNotFound (",".intercalate (missing.map toString))))
    check (checkEdges state replicas)
    write (setStatuses ids state)
    pure (replicas.map (Replica.enter state))

def createReplica (versionId : Arg UUID) (nodeId : Arg String) : Tx Replica := do
  let nodeId ← check (validateNodeId nodeId)
  let versionId ← check (bindArg versionId)
  let db ← read
  require ((db.version? versionId).isSome) (.vault (objectNotFound (toString versionId)))
  require ((db.node? nodeId).isSome) (.vault (objectNotFound nodeId))
  require ((db.replicaOn? versionId nodeId).isNone) (.vault (invalidState
    s!"Replica already exists for version {versionId} on node {nodeId}."))
  write (insertReplica versionId nodeId)
  pure { replicaId := db.newUuid, versionId := versionId, nodeId := nodeId }

def setReplicaState (replicaId : Arg UUID) (state : Arg ReplicaState) : Tx Replica := do
  let state ← check (validateTyped "state must be a ReplicaState" state)
  let replicaId ← check (bindArg replicaId)
  let db ← read
  let replica ← demand (db.replica? replicaId) (.vault (objectNotFound (toString replicaId)))
  if replica.status = state then pure replica
  else
    require (state ∈ replicaStateTransitions replica.status)
      (.vault (invalidState s!"Cannot transition replica from {replica.status} to {state}."))
    require (state ≠ .healthy)
      (.vault (invalidState "Use mark_replica_healthy() after size/checksum verification."))
    write (fun db => db.amendReplica replicaId (Replica.enter state))
    pure (replica.enter state)

def Replica.verify (now : Time) (checksum : Checksum) (sizeBytes : ℕ) (r : Replica) : Replica :=
  { r with checksum := some checksum, sizeBytes := some sizeBytes, lastVerifiedAt := some now }

def recordVerified (now : Time) (replicaId : UUID) (actual : Checksum) (size : ℕ) : Tx Replica := do
  let db ← read
  let replica ← demand (db.replica? replicaId) (.vault (objectNotFound (toString replicaId)))
  let version ← demand (db.version? replica.versionId)
    (.vault (objectNotFound (toString replica.versionId)))
  require (replica.status = .healthy) (.vault (invalidState
    s!"Replica {replica.replicaId} is {replica.status}; integrity verification requires HEALTHY state."))
  require (actual = version.checksum) (.vault (checksumMismatch version.checksum actual))
  require (size = version.sizeBytes) (.vault (invalidState
    s!"Replica size mismatch: expected {version.sizeBytes}, got {size}."))
  write (fun db => db.amendReplica replicaId (Replica.verify now actual size))
  pure (replica.verify now actual size)

def recordReplicaVerification (now : Time) (replicaId : Arg UUID) (checksum : Arg String)
    (sizeBytes : Arg ℤ) : Tx Replica := do
  let actual ← check (validateChecksum checksum)
  let size ← check (validateNonNegative "size_bytes" sizeBytes)
  let replicaId ← check (bindArg replicaId)
  recordVerified now replicaId actual size

def markVerified (seen : Replica → ReplicaState) (now : Time) (replicaId : UUID) (actual : Checksum)
    (size : ℕ) : Tx Replica := do
  let db ← read
  let replica ← demand (db.replica? replicaId) (.vault (objectNotFound (toString replicaId)))
  let version ← demand (db.version? replica.versionId)
    (.vault (objectNotFound (toString replica.versionId)))
  require (actual = version.checksum) (.vault (checksumMismatch version.checksum actual))
  require (size = version.sizeBytes) (.vault (invalidState
    s!"Replica size mismatch: expected {version.sizeBytes}, got {size}."))
  require (seen replica = .copying ∨ seen replica = .repairing) (.vault (invalidState
    s!"Replica {replica.replicaId} is {seen replica}; cannot mark HEALTHY."))
  write (fun db => db.amendReplica replicaId
    (fun r => (r.enter .healthy).verify now actual size))
  pure ((replica.enter .healthy).verify now actual size)

def markReplicaHealthy (now : Time) (replicaId : Arg UUID) (checksum : Arg String)
    (sizeBytes : Arg ℤ) : Tx Replica := do
  let actual ← check (validateChecksum checksum)
  let size ← check (validateNonNegative "size_bytes" sizeBytes)
  let replicaId ← check (bindArg replicaId)
  markVerified Replica.status now replicaId actual size

def deleteReplica (replicaId : UUID) (db : Db) : Db :=
  { db with replicas := Table.remove Replica.replicaId replicaId db.replicas }

def removeReplica (replicaId : Arg UUID) : Tx Replica := do
  let replicaId ← check (validateTyped "replica_id must be a UUID" replicaId)
  let db ← read
  let replica ← demand (db.replica? replicaId) (.vault (objectNotFound (toString replicaId)))
  require (replica.status ∈ [.healthy, .corrupted, .stale, .unavailable]) (.vault (invalidState
    s!"Replica {replica.replicaId} cannot be removed from state {replica.status}."))
  write (deleteReplica replicaId)
  pure replica

end Vault.Metadata
