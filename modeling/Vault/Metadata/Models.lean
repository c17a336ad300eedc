import Vault.Common.Errors
import Vault.Lib.Table

/-! The metadata tables of `metadata/models.py`. Rows stand in the order of their insertion, and
`nextId` is the next UUID that `new_uuid` returns. Creation and update times are left out: no
modelled operation reads them. The schema allows one replica row for a version on a node, which
`replicaOn?` finds. -/

namespace Vault.Metadata

open Vault.Common Vault.Lib

structure Object where
  objectId : UUID
  name : String
  currentVersionId : Option UUID := none
  state : ObjectState := .active
  deriving DecidableEq, Repr

structure Version where
  versionId : UUID
  objectId : UUID
  versionNumber : ℕ
  sizeBytes : ℕ
  checksum : Checksum
  state : VersionState := .preparing
  committedAt : Option Time := none
  deriving DecidableEq, Repr

structure StorageNode where
  nodeId : String
  address : String
  status : NodeState := .joining
  capacityBytes : ℕ := 0
  usedBytes : ℕ := 0
  lastHeartbeatAt : Option Time := none
  deriving DecidableEq, Repr

def StorageNode.freeBytes (n : StorageNode) : ℕ := n.capacityBytes - n.usedBytes

structure Replica where
  replicaId : UUID
  versionId : UUID
  nodeId : String
  status : ReplicaState := .pending
  checksum : Option Checksum := none
  sizeBytes : Option ℕ := none
  lastVerifiedAt : Option Time := none
  deriving DecidableEq, Repr

structure RepairJob where
  repairId : UUID
  versionId : UUID
  sourceNodeId : String
  targetNodeId : String
  reason : String
  status : JobStatus := .pending
  attempts : ℕ := 0
  lastError : Option String := none
  deriving DecidableEq, Repr

structure RebalanceJob where
  rebalanceId : UUID
  versionId : UUID
  sourceNodeId : String
  targetNodeId : String
  status : JobStatus := .pending
  attempts : ℕ := 0
  lastError : Option String := none
  deriving DecidableEq, Repr

structure IntegrityJob where
  integrityId : UUID
  nodeId : Option String := none
  versionId : Option UUID := none
  status : JobStatus := .pending
  attempts : ℕ := 0
  checkedCount : ℕ := 0
  corruptedCount : ℕ := 0
  lastError : Option String := none
  deriving DecidableEq, Repr

structure Db where
  objects : List Object := []
  versions : List Version := []
  nodes : List StorageNode := []
  replicas : List Replica := []
  repairJobs : List RepairJob := []
  rebalanceJobs : List RebalanceJob := []
  integrityJobs : List IntegrityJob := []
  nextId : ℕ := 0
  deriving DecidableEq, Repr

namespace Db

variable (db : Db)

def object? (objectId : UUID) : Option Object := Table.lookup Object.objectId objectId db.objects
def version? (versionId : UUID) : Option Version := Table.lookup Version.versionId versionId db.versions
def node? (nodeId : String) : Option StorageNode := Table.lookup StorageNode.nodeId nodeId db.nodes
def replica? (replicaId : UUID) : Option Replica := Table.lookup Replica.replicaId replicaId db.replicas

def replicaOn? (versionId : UUID) (nodeId : String) : Option Replica :=
  Table.lookup (fun r => (r.versionId, r.nodeId)) (versionId, nodeId) db.replicas

def repairJob? (repairId : UUID) : Option RepairJob :=
  Table.lookup RepairJob.repairId repairId db.repairJobs

def rebalanceJob? (rebalanceId : UUID) : Option RebalanceJob :=
  Table.lookup RebalanceJob.rebalanceId rebalanceId db.rebalanceJobs

def integrityJob? (integrityId : UUID) : Option IntegrityJob :=
  Table.lookup IntegrityJob.integrityId integrityId db.integrityJobs

def versionsOf (objectId : UUID) : List Version :=
  db.versions.filter (fun v => v.objectId = objectId)

def maxVersionNumber (objectId : UUID) : ℕ :=
  ((db.versionsOf objectId).map Version.versionNumber).foldr max 0

def newUuid : UUID := ⟨db.nextId⟩

def amendObject (objectId : UUID) (f : Object → Object) : Db :=
  { db with objects := Table.amend Object.objectId objectId f db.objects }

def amendVersion (versionId : UUID) (f : Version → Version) : Db :=
  { db with versions := Table.amend Version.versionId versionId f db.versions }

def amendNode (nodeId : String) (f : StorageNode → StorageNode) : Db :=
  { db with nodes := Table.amend StorageNode.nodeId nodeId f db.nodes }

def amendReplica (replicaId : UUID) (f : Replica → Replica) : Db :=
  { db with replicas := Table.amend Replica.replicaId replicaId f db.replicas }

def amendRepairJob (repairId : UUID) (f : RepairJob → RepairJob) : Db :=
  { db with repairJobs := Table.amend RepairJob.repairId repairId f db.repairJobs }

def amendRebalanceJob (rebalanceId : UUID) (f : RebalanceJob → RebalanceJob) : Db :=
  { db with rebalanceJobs := Table.amend RebalanceJob.rebalanceId rebalanceId f db.rebalanceJobs }

def amendIntegrityJob (integrityId : UUID) (f : IntegrityJob → IntegrityJob) : Db :=
  { db with integrityJobs := Table.amend IntegrityJob.integrityId integrityId f db.integrityJobs }

end Db

end Vault.Metadata
