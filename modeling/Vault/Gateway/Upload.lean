import Vault.Gateway.Deletion
import Vault.Gateway.Staging
import Vault.Replication.Writes

/-! `GatewayService.put_object`. The first SELECT opens a transaction, so every metadata call of the upload is only
a savepoint in it, and one commit at the end makes all of it durable. An upload that fails clears up after itself:
it fails the version that it was preparing and deletes the object that it had created, which is committed. -/

namespace Vault.Gateway

open Vault.Common Vault.Metadata Vault.Storage Vault.Lib Vault.Lib.Script Vault.Replication

lemma default_write_quorum_pos : 1 ≤ 2 := by decide

lemma default_read_quorum_pos : 1 ≤ 1 := le_rfl

lemma default_write_quorum_le : 2 ≤ 3 := by decide

lemma default_read_quorum_le : 1 ≤ 3 := by decide

def defaultPolicy : ReplicationPolicy where
  factor := 3
  writeQuorum := 2
  readQuorum := 1
  writeQuorum_pos := default_write_quorum_pos
  readQuorum_pos := default_read_quorum_pos
  writeQuorum_le := default_write_quorum_le
  readQuorum_le := default_read_quorum_le

structure UploadReceipt where
  objectId : UUID
  name : String
  versionId : UUID
  versionNumber : ℕ
  sizeBytes : ℕ
  checksum : Checksum
  replicas : List String
  replicationFactor : ℕ
  writeQuorum : ℕ
  deriving DecidableEq, Repr

def findByName (db : Db) (name : String) : Option Object := db.objects.find? (fun o => o.name = name)

/-- The object of that name, and whether the upload has created it. -/
def findOrCreateObject (name : String) : Upload (Object × Bool) := do
  let db ← query
  match findByName db name with
  | some obj => pure (obj, false)
  | none =>
    handle (do
      let obj ← transaction (createObject (.value name))
      pure (obj, true)) fun e =>
        if e = .vault (objectAlreadyExists name) then do
          let db ← query
          let obj ← demand (findByName db name) (.vault (objectNotFound name))
          pure (obj, false)
        else raise e

/-- `session.delete(obj)`, which takes the versions of the object and their replicas along. -/
def deleteCascade (objectId : UUID) (db : Db) : Db :=
  { db with
    objects := db.objects.filter (fun o => o.objectId ≠ objectId)
    versions := db.versions.filter (fun v => v.objectId ≠ objectId)
    replicas := db.replicas.filter (fun r => ¬OwnedBy db objectId r.versionId) }

def failPreparing (versionId : UUID) : Upload Unit := do
  let db ← query
  if ∃ v ∈ db.version? versionId, v.state = .preparing then
    handle (do
      let _ ← transaction (failVersion (.value versionId))
      pure ()) fun e =>
        match e with
        | .vault _ => pure ()
        | e => raise e
  else pure ()

def deleteCreated (objectId : UUID) : Upload Unit := do
  let db ← query
  if ∃ o ∈ db.object? objectId, o.currentVersionId = none then save (deleteCascade objectId) else pure ()

/-- What an upload that has not succeeded does at its end. -/
def clearUp (obj : Object) (created : Bool) (version : Option Version) : Upload Unit := do
  match version with
  | some v => failPreparing v.versionId
  | none => pure ()
  if created then deleteCreated obj.objectId else pure ()

def unlessSucceeded {α : Type} (x : Upload α) (cleanup : Upload Unit) : Upload α := do
  let r ← x.attempt
  match r with
  | .ok a => pure a
  | .error e => do
    cleanup
    raise e

def uncommittedResult : VaultError := ⟨.internalError, "Replication completed without a committed version.", 500⟩

def storeVersion (policy : ReplicationPolicy) (obj : Object) (version : Version) (payload : Payload)
    (expectedCurrentVersion : Arg (Option ℤ)) : Upload UploadReceipt := do
  let result ← replicateVersion policy (.value version.versionId) (.value payload) (.value none) (.value none)
    expectedCurrentVersion
  let db ← query
  let committed ← demand (db.version? version.versionId) (.vault uncommittedResult)
  require (committed.state = .committed) (.vault uncommittedResult)
  save id
  pure
    { objectId := obj.objectId, name := obj.name, versionId := committed.versionId,
      versionNumber := committed.versionNumber, sizeBytes := committed.sizeBytes, checksum := committed.checksum,
      replicas := result.healthyNodeIds, replicationFactor := policy.factor, writeQuorum := policy.writeQuorum }

def prepareVersion (obj : Object) (staged : StagedUpload) (expectedCurrentVersion : Arg (Option ℤ)) : Tx Version :=
  createVersion (.value obj.objectId) (.value staged.sizeBytes) (.value (toString staged.checksum))
    expectedCurrentVersion

def storeUpload (policy : ReplicationPolicy) (name : String) (staged : StagedUpload) (payload : Payload)
    (expectedCurrentVersion : Arg (Option ℤ)) : Upload UploadReceipt := do
  let (obj, created) ← findOrCreateObject name
  let version ← unlessSucceeded (transaction (prepareVersion obj staged expectedCurrentVersion)) (clearUp obj created none)
  unlessSucceeded (storeVersion policy obj version payload expectedCurrentVersion) (clearUp obj created (some version))

/-- The temporary file is unlinked in every case, which `unlink` models. -/
def putObject (sha256 : Bytes → Checksum) (maxUploadBytes : Arg ℤ) (path : String) (temp : TempFiles) (name : Arg String)
    (chunks : List BodyItem) (expectedCurrentVersion : Arg (Option ℤ)) (replicationPolicy : Option ReplicationPolicy) :
    Upload UploadReceipt := do
  let normalizedName ← lift (normalizeObjectName name)
  let (result, temp) := stageUpload sha256 path maxUploadBytes chunks temp
  let staged ← lift result
  let payload := (fileChunks staged.path defaultChunkSizeBytes temp).getD []
  storeUpload (replicationPolicy.getD defaultPolicy) normalizedName staged payload expectedCurrentVersion

end Vault.Gateway
