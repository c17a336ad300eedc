import Mathlib.Tactic

/-! The canonical states of `common/constants.py` and the two lifecycle tables. The table of
replica edges is the one written out twice in `metadata/manager.py`; it has no edge into
`HEALTHY`, where only a verified measurement leads. -/

namespace Vault.Common

inductive ObjectState
  | active | deleting | deleted
  deriving DecidableEq, Repr

inductive VersionState
  | preparing | committed | failed
  deriving DecidableEq, Repr

inductive ReplicaState
  | pending | copying | healthy | stale | corrupted | unavailable | repairing | failed
  deriving DecidableEq, Repr

inductive NodeState
  | joining | healthy | suspect | unavailable | recovering | draining | removed
  deriving DecidableEq, Repr

inductive JobStatus
  | pending | running | succeeded | failed
  deriving DecidableEq, Repr

inductive ErrorCode
  | objectNotFound | objectAlreadyExists | versionConflict | nodeUnavailable
  | insufficientReplicas | checksumMismatch | repairInProgress | storageFull
  | invalidRequest | unauthorized | payloadTooLarge | internalError
  deriving DecidableEq, Repr

instance : ToString ObjectState where
  toString
    | .active => "ACTIVE"
    | .deleting => "DELETING"
    | .deleted => "DELETED"

instance : ToString VersionState where
  toString
    | .preparing => "PREPARING"
    | .committed => "COMMITTED"
    | .failed => "FAILED"

instance : ToString ReplicaState where
  toString
    | .pending => "PENDING"
    | .copying => "COPYING"
    | .healthy => "HEALTHY"
    | .stale => "STALE"
    | .corrupted => "CORRUPTED"
    | .unavailable => "UNAVAILABLE"
    | .repairing => "REPAIRING"
    | .failed => "FAILED"

instance : ToString NodeState where
  toString
    | .joining => "JOINING"
    | .healthy => "HEALTHY"
    | .suspect => "SUSPECT"
    | .unavailable => "UNAVAILABLE"
    | .recovering => "RECOVERING"
    | .draining => "DRAINING"
    | .removed => "REMOVED"

instance : ToString ErrorCode where
  toString
    | .objectNotFound => "OBJECT_NOT_FOUND"
    | .objectAlreadyExists => "OBJECT_ALREADY_EXISTS"
    | .versionConflict => "VERSION_CONFLICT"
    | .nodeUnavailable => "NODE_UNAVAILABLE"
    | .insufficientReplicas => "INSUFFICIENT_REPLICAS"
    | .checksumMismatch => "CHECKSUM_MISMATCH"
    | .repairInProgress => "REPAIR_IN_PROGRESS"
    | .storageFull => "STORAGE_FULL"
    | .invalidRequest => "INVALID_REQUEST"
    | .unauthorized => "UNAUTHORIZED"
    | .payloadTooLarge => "PAYLOAD_TOO_LARGE"
    | .internalError => "INTERNAL_ERROR"

def objectStateTransitions : ObjectState → List ObjectState
  | .active => [.deleting]
  | .deleting => [.deleted]
  | .deleted => []

def nodeStateTransitions : NodeState → List NodeState
  | .joining => [.healthy]
  | .healthy => [.suspect, .draining]
  | .suspect => [.healthy, .unavailable]
  | .unavailable => [.recovering]
  | .recovering => [.healthy, .suspect]
  | .draining => [.removed]
  | .removed => []

def replicaStateTransitions : ReplicaState → List ReplicaState
  | .pending => [.repairing, .copying, .failed]
  | .copying => [.failed]
  | .healthy => [.stale, .corrupted, .unavailable]
  | .stale => [.repairing]
  | .corrupted => [.repairing]
  | .unavailable => [.repairing]
  | .repairing => [.copying, .failed]
  | .failed => []

lemma active_not_mem_objectStateTransitions (s : ObjectState) : .active ∉ objectStateTransitions s := by
  cases s <;> decide

lemma healthy_not_mem_replicaStateTransitions (s : ReplicaState) :
    .healthy ∉ replicaStateTransitions s := by
  cases s <;> decide

end Vault.Common
