import Vault.Metadata.Validation

/-! Object and version operations of `MetadataManager`. `enterObjectState` is the transaction of
`transition_object_state`, with the state that the session sees in the locked row. -/

namespace Vault.Metadata

open Vault.Common Vault.Lib.Transaction Vault.Lib.Transaction.Tx

def insertObject (obj : Object) (db : Db) : Db :=
  { db with objects := db.objects ++ [obj], nextId := db.nextId + 1 }

def insertVersion (version : Version) (db : Db) : Db :=
  { db with versions := db.versions ++ [version], nextId := db.nextId + 1 }

def Version.commit (now : Time) (v : Version) : Version :=
  { v with state := .committed, committedAt := some now }

def Version.fail (v : Version) : Version := { v with state := .failed }

def Object.serve (versionId : UUID) (o : Object) : Object :=
  { o with currentVersionId := some versionId, state := .active }

def Object.enter (state : ObjectState) (o : Object) : Object := { o with state := state }

def getObject (name : Arg String) : Tx (Option Object) := do
  let normalized ← check (normalizeObjectName name)
  let db ← read
  pure (db.objects.find? (fun o => o.name = normalized))

def getObjectOrRaise (name : Arg String) : Tx Object := do
  let obj ← getObject name
  demand obj (.vault (objectNotFound (match name with | .value s => strip s | .illTyped => "")))

def createObject (name : Arg String) : Tx Object := do
  let normalized ← check (normalizeObjectName name)
  let db ← read
  require (db.objects.find? (fun o => o.name = normalized) = none)
    (.vault (objectAlreadyExists normalized))
  let obj : Object := { objectId := db.newUuid, name := normalized }
  write (insertObject obj)
  pure obj

def lockObject (objectId : UUID) : Tx Object := do
  let db ← read
  demand (db.object? objectId) (.vault (objectNotFound (toString objectId)))

def currentVersionNumber (obj : Object) : Tx (Option ℕ) :=
  match obj.currentVersionId with
  | none => pure none
  | some versionId => do
    let db ← read
    let current ← demand (db.version? versionId)
      (.vault (invalidState s!"Object {obj.objectId} points to missing current version."))
    pure (some current.versionNumber)

def expectedMatches (expected current : Option ℕ) : Prop :=
  match expected with
  | none => True
  | some e => current.getD 0 = e

instance (expected current : Option ℕ) : Decidable (expectedMatches expected current) :=
  match expected with
  | none => inferInstanceAs (Decidable True)
  | some e => inferInstanceAs (Decidable (current.getD 0 = e))

def createVersion (objectId : Arg UUID) (sizeBytes : Arg ℤ) (checksum : Arg String)
    (expectedCurrentVersion : Arg (Option ℤ)) : Tx Version := do
  let size ← check (validateNonNegative "size_bytes" sizeBytes)
  let normalizedChecksum ← check (validateChecksum checksum)
  let expected ← check (validateExpectedVersion expectedCurrentVersion)
  let objectId ← check (bindArg objectId)
  let obj ← lockObject objectId
  require (obj.state = .active)
    (.vault (invalidState s!"Cannot create a version for object {objectId} in state {obj.state}."))
  let current ← currentVersionNumber obj
  require (expectedMatches expected current) (.vault (versionConflict expected current))
  let db ← read
  let version : Version :=
    { versionId := db.newUuid, objectId := objectId,
      versionNumber := db.maxVersionNumber objectId + 1,
      sizeBytes := size, checksum := normalizedChecksum }
  write (insertVersion version)
  pure version

def commitVersion (now : Time) (versionId : Arg UUID) (expectedCurrentVersion : Arg (Option ℤ)) :
    Tx Version := do
  let expected ← check (validateExpectedVersion expectedCurrentVersion)
  let versionId ← check (bindArg versionId)
  let db ← read
  let version ← demand (db.version? versionId) (.vault (objectNotFound (toString versionId)))
  let obj ← lockObject version.objectId
  let current ← currentVersionNumber obj
  require (expectedMatches expected current) (.vault (versionConflict expected current))
  require (version.state = .preparing)
    (.vault (invalidState s!"Version {version.versionId} is {version.state}, not PREPARING."))
  require (∀ n ∈ current, n < version.versionNumber)
    (.vault (versionConflict (some version.versionNumber) current))
  write (fun db => db.amendVersion version.versionId (Version.commit now))
  write (fun db => db.amendObject obj.objectId (Object.serve version.versionId))
  pure (version.commit now)

def enterObjectState (seen : Object → ObjectState) (objectId : UUID) (state : ObjectState) :
    Tx Object := do
  let db ← read
  let obj ← demand (db.object? objectId) (.vault (objectNotFound (toString objectId)))
  if state = seen obj then pure obj
  else
    require (state ∈ objectStateTransitions (seen obj)) (.vault (invalidState
      s!"Cannot transition object {objectId} from {seen obj} to {state}."))
    write (fun db => db.amendObject objectId (Object.enter state))
    pure (obj.enter state)

def transitionObjectState (objectId : Arg UUID) (state : Arg ObjectState) : Tx Object := do
  let objectId ← check (validateTyped "object_id must be a UUID" objectId)
  let state ← check (validateTyped "state must be an ObjectState" state)
  enterObjectState Object.state objectId state

def failVersion (versionId : Arg UUID) : Tx Version := do
  let versionId ← check (validateTyped "version_id must be a UUID" versionId)
  let db ← read
  let version ← demand (db.version? versionId) (.vault (objectNotFound (toString versionId)))
  require (version.state ≠ .committed)
    (.vault (invalidState s!"Version {versionId} is already COMMITTED."))
  write (fun db => db.amendVersion versionId Version.fail)
  pure version.fail

end Vault.Metadata
