import Vault.Repair.Scheduling

/-! `IntegrityManager`: one replica is measured on its node and either recorded as verified or marked
`CORRUPTED` and handed to repair; a scan does this for every replica of a node. -/

namespace Vault.Integrity

open Vault.Common Vault.Metadata Vault.Storage Vault.Lib Vault.Lib.Script

structure IntegrityResult where
  replicaId : UUID
  versionId : UUID
  nodeId : String
  checked : Bool
  corrupted : Bool
  repairId : Option UUID := none
  checksum : Option Checksum := none
  sizeBytes : Option ℕ := none
  deriving DecidableEq, Repr

/-- The measurement is valid and agrees both with the replica's record, where it has one, and with
the version. -/
def Agrees (replica : Replica) (version : Version) (measured : Blob) : Prop :=
  measured.Matches version ∧ measured.checksum = replica.checksum.getD version.checksum ∧
    measured.sizeBytes = replica.sizeBytes.getD version.sizeBytes

instance (replica : Replica) (version : Version) (measured : Blob) :
    Decidable (Agrees replica version measured) :=
  inferInstanceAs (Decidable (_ ∧ _))

def Unchecked (replica : Replica) (version : Version) (node : StorageNode) : Prop :=
  version.state ≠ .committed ∨ node.status ≠ .healthy ∨ replica.status ≠ .healthy

instance (replica : Replica) (version : Version) (node : StorageNode) :
    Decidable (Unchecked replica version node) :=
  inferInstanceAs (Decidable (_ ∨ _))

def reportCorruption (replicationFactor : ℕ) (replica : Replica) (version : Version) (measured : Blob) :
    Job IntegrityResult := do
  let _ ← transaction (setReplicaState (.value replica.replicaId) (.value .corrupted))
  let job ← Repair.schedule version.versionId replicationFactor (.value "integrity-mismatch")
    (some replica)
  pure
    { replicaId := replica.replicaId, versionId := replica.versionId, nodeId := replica.nodeId,
      checked := true, corrupted := true, repairId := job.map RepairJob.repairId,
      checksum := some measured.checksum, sizeBytes := some measured.sizeBytes }

def recordMeasurement (replica : Replica) (measured : Blob) : Job IntegrityResult := do
  let now ← Job.now
  let _ ← transaction (recordVerified now replica.replicaId measured.checksum measured.sizeBytes)
  pure
    { replicaId := replica.replicaId, versionId := replica.versionId, nodeId := replica.nodeId,
      checked := true, corrupted := false, checksum := some measured.checksum,
      sizeBytes := some measured.sizeBytes }

def verifyReplica (replicationFactor : ℕ) (replicaId : UUID) : Job IntegrityResult := do
  let db ← query
  let replica ← demand (db.replica? replicaId) (.vault (objectNotFound (toString replicaId)))
  let version ← demand (db.version? replica.versionId)
    (.vault (objectNotFound (toString replica.versionId)))
  let node ← demand (db.node? replica.nodeId) (.vault (objectNotFound replica.nodeId))
  if Unchecked replica version node then
    pure
      { replicaId := replica.replicaId, versionId := replica.versionId, nodeId := replica.nodeId,
        checked := false, corrupted := false }
  else
    let measured ← Job.measure node.nodeId version.versionId
    if Agrees replica version measured then recordMeasurement replica measured
    else reportCorruption replicationFactor replica version measured

def committedOn (db : Db) (nodeId : String) : List Replica :=
  db.replicas.filter (fun r => r.nodeId = nodeId ∧
    ∃ v ∈ db.version? r.versionId, v.state = .committed)

def byReplicaId (rs : List Replica) : List Replica :=
  rs.mergeSort (fun r s => r.replicaId.n ≤ s.replicaId.n)

def scanNode (replicationFactor : ℕ) (nodeId : String) : Job (List IntegrityResult) := do
  let db ← query
  let node ← demand (db.node? nodeId) (.vault (objectNotFound nodeId))
  if node.status ≠ .healthy then pure []
  else
    let replicas := (committedOn db nodeId).filter (fun r => r.status = .healthy)
    forEach (verifyReplica replicationFactor) ((byReplicaId replicas).map Replica.replicaId)

end Vault.Integrity
