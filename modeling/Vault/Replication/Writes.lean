import Vault.Metadata.Replicas
import Vault.Metadata.Versions
import Vault.Placement.Selection
import Vault.Storage.Measurement

/-! `ReplicationManager.replicate_version`. The nodes are selected, a replica row is made for each of them, and
the writers run. A writer sends the payload and then asks for a verification; it touches neither the session
nor the node of another writer, so the gathered writers are run one after another. Every call may end with an
exception of any class. -/

namespace Vault.Replication

open Vault.Common Vault.Metadata Vault.Storage Vault.Lib Vault.Lib.Script Vault.Placement

abbrev Payload := List Bytes

/-- Calls to the client of a node, and the clock. -/
inductive Call : Type → Type
  | connect (nodeId : String) : Call (Except Failure Unit)
  | put (nodeId : String) (key : Key) (payload : Payload) : Call (Except Failure Unit)
  | verify (nodeId : String) (key : Key) : Call (Except Failure Blob)
  | close (nodeId : String) : Call (Except Failure Unit)
  | now : Call Time

abbrev Upload := Script Db Failure Call Empty

def call {α : Type} (q : Call (Except Failure α)) : Upload α := do
  let answer ← request q
  lift answer

structure ReplicationPolicy where
  factor : ℕ
  writeQuorum : ℕ
  readQuorum : ℕ
  writeQuorum_pos : 1 ≤ writeQuorum
  readQuorum_pos : 1 ≤ readQuorum
  writeQuorum_le : writeQuorum ≤ factor
  readQuorum_le : readQuorum ≤ factor

structure ReplicaWriteResult where
  nodeId : String
  status : ReplicaState
  verified : Bool
  error : Option String := none
  checksum : Option Checksum := none
  sizeBytes : Option ℕ := none
  deriving DecidableEq, Repr

structure ReplicationResult where
  versionId : UUID
  selectedNodeIds : List String
  healthyNodeIds : List String
  failedNodeIds : List String
  committed : Bool
  deriving DecidableEq, Repr

/-- `str` of an exception. -/
def errorText : Failure → String
  | .vault e => toString e
  | .client e => e.message
  | .value message => message
  | .illTyped => ""
  | .other message => message

def Expected : Failure → Prop
  | .vault _ => True
  | .client _ => True
  | _ => False

instance : DecidablePred Expected
  | .vault _ => inferInstanceAs (Decidable True)
  | .client _ => inferInstanceAs (Decidable True)
  | .value _ => inferInstanceAs (Decidable False)
  | .illTyped => inferInstanceAs (Decidable False)
  | .other _ => inferInstanceAs (Decidable False)

def failedWrite (nodeId : String) (e : Failure) : ReplicaWriteResult :=
  { nodeId := nodeId, status := .failed, verified := false, error := some (errorText e) }

def verifiedWrite (nodeId : String) (measured : Blob) : ReplicaWriteResult :=
  { nodeId := nodeId, status := .healthy, verified := true, checksum := some measured.checksum,
    sizeBytes := some measured.sizeBytes }

/-- An ambiguous earlier `PUT` is left to the verification. -/
def putResult : Except Failure Unit → Except Failure Unit
  | .error (.client e) => if e.kind = .objectAlreadyExists then .ok () else .error (.client e)
  | r => r

def checkMeasurement (version : Version) (measured : Blob) : Except Failure Unit :=
  if measured.valid = false then
    .error (.client (integrity "Storage-node verification did not validate the replica."))
  else if measured.checksum ≠ version.checksum then
    .error (.client (integrity "Storage-node verification checksum does not match metadata."))
  else if measured.sizeBytes ≠ version.sizeBytes then
    .error (.client (integrity "Storage-node verification size does not match metadata."))
  else .ok ()

def sendAndVerify (version : Version) (payload : Payload) (nodeId : String) : Upload ReplicaWriteResult := do
  let answer ← request (.put nodeId (versionKey version) payload)
  lift (putResult answer)
  let measured ← call (.verify nodeId (versionKey version))
  lift (checkMeasurement version measured)
  pure (verifiedWrite nodeId measured)

def writeOne (version : Version) (payload : Payload) (node : StorageNode) : Upload ReplicaWriteResult := do
  call (.connect node.nodeId)
  ensure
    ((sendAndVerify version payload node.nodeId).handle fun e =>
      if Expected e then pure (failedWrite node.nodeId e) else raise e)
    (call (.close node.nodeId))

def gatherWrites (version : Version) (payload : Payload) (nodes : List StorageNode) :
    Upload (List (Except Failure ReplicaWriteResult)) :=
  forEach (fun node => (writeOne version payload node).attempt) nodes

/-- The row of a replica is brought in line with the outcome of its writer. -/
def settleReplica : Replica × Except Failure ReplicaWriteResult → Upload ReplicaWriteResult
  | (replica, .error e) => do
    let _ ← transaction (setReplicaState (.value replica.replicaId) (.value .failed))
    pure (failedWrite replica.nodeId e)
  | (replica, .ok result) =>
    if result.verified then
      match result.checksum, result.sizeBytes with
      | some checksum, some sizeBytes => do
        let now ← request .now
        let _ ← transaction (markVerified Replica.status now replica.replicaId checksum sizeBytes)
        pure result
      | _, _ => raise (.vault
          ⟨.internalError, "Replica verification omitted checksum or size metadata.", 500⟩)
    else do
      let _ ← transaction (setReplicaState (.value replica.replicaId) (.value .failed))
      pure result

def firstError {α : Type} (results : List (Except Failure α)) : Option Failure :=
  results.findSome? fun r => match r with | .error e => some e | .ok _ => none

def quorumMissed (quorum : ℕ) (versionId : UUID) (healthy : ℕ) : VaultError :=
  ⟨.insufficientReplicas, s!"Write quorum {quorum} was not reached for version {versionId}; " ++
    s!"only {healthy} replica(s) were verified.", 503⟩

def settleVersion (versionId : UUID) (quorum : ℕ) (expectedCurrentVersion : Arg (Option ℤ))
    (nodes : List StorageNode) (results : List ReplicaWriteResult) : Upload ReplicationResult :=
  let healthy := (results.filter (fun r => r.verified)).map ReplicaWriteResult.nodeId
  let failed := (results.filter (fun r => !r.verified)).map ReplicaWriteResult.nodeId
  if healthy.length < quorum then do
    let _ ← transaction (failVersion (.value versionId))
    raise (.vault (quorumMissed quorum versionId healthy.length))
  else do
    let now ← request .now
    let _ ← transaction (commitVersion now (.value versionId) expectedCurrentVersion)
    pure
      { versionId := versionId, selectedNodeIds := nodes.map StorageNode.nodeId, healthyNodeIds := healthy,
        failedNodeIds := failed, committed := true }

def positiveOr (field : String) (default : ℕ) : Arg (Option ℤ) → Except Failure ℕ
  | .value none => .ok default
  | .value (some (.ofNat (n + 1))) => .ok (n + 1)
  | _ => .error (.value (field ++ " must be a positive integer"))

def getVersion (versionId : UUID) : Upload Version := do
  let db ← query
  let version ← demand (db.version? versionId) (.vault (objectNotFound (toString versionId)))
  require (version.state = .preparing)
    (.vault (invalidState s!"Version {versionId} is {version.state}, not PREPARING."))
  pure version

def replicateTo (version : Version) (payload : Payload) (nodes : List StorageNode) (quorum : ℕ)
    (expectedCurrentVersion : Arg (Option ℤ)) : Upload ReplicationResult := do
  let replicas ← transaction (createReplicas (.value version.versionId) (nodes.map fun n => .value n.nodeId))
  let _ ← transaction (setReplicaStates (replicas.map fun r => .value r.replicaId) (.value .copying))
  let pending ← gatherWrites version payload nodes
  let results ← forEach settleReplica (replicas.zip pending)
  match firstError pending with
  | some e => raise e
  | none => settleVersion version.versionId quorum expectedCurrentVersion nodes results

def replicateVersion (policy : ReplicationPolicy) (versionId : Arg UUID) (payloadFactory : Arg Payload)
    (replicationFactor writeQuorum expectedCurrentVersion : Arg (Option ℤ)) : Upload ReplicationResult := do
  let payload ← lift (validateTyped "payload_factory must be callable" payloadFactory)
  let factor ← lift (positiveOr "replication_factor" policy.factor replicationFactor)
  let quorum ← lift (positiveOr "write_quorum" policy.writeQuorum writeQuorum)
  require (quorum ≤ factor) (.value "write_quorum must not exceed replication_factor")
  let _ ← lift (validateExpectedVersion expectedCurrentVersion)
  let versionId ← lift (bindArg versionId)
  let version ← getVersion versionId
  let nodes ← selectNodes versionId version.sizeBytes factor
  replicateTo version payload nodes quorum expectedCurrentVersion

end Vault.Replication
