import Vault.Lib.Script
import Vault.Storage.Store

/-! What a background task asks of the world: calls of `StorageNodeClient`, the clock and the task
queue. `VERIFY` answers carry `verified = true`, or the client raises; `Blob.valid` is their
`valid`. The bytes that a `PUT` sends come from a stream of the source node. -/

namespace Vault.Storage

open Vault.Common Vault.Metadata Vault.Lib

structure NodeHealth where
  status : String
  nodeId : String
  deriving DecidableEq, Repr

structure NodeStats where
  capacityBytes : ℕ
  usedBytes : ℕ
  deriving DecidableEq, Repr

inductive Request : Type → Type
  | verify (nodeId : String) (versionId : UUID) : Request (Except ClientError Blob)
  | delete (nodeId : String) (versionId : UUID) : Request (Except ClientError Unit)
  | stream (nodeId : String) (versionId : UUID) : Request (Except ClientError Unit)
  | put (nodeId : String) (versionId : UUID) : Request (Except ClientError Unit)
  | poll (nodeId : String) : Request (Except Failure (NodeHealth × NodeStats))
  | now : Request Time
  | enqueue (versionId repairId : UUID) : Request String

/-- What a task notes down: a reconciliation of a node has ended. -/
inductive Note
  | reconciled (nodeId : String) (complete : Bool)
  deriving DecidableEq, Repr

abbrev Job := Script Db Failure Request Note

namespace Job

def ofClient {α : Type} : Except ClientError α → Job α
  | .ok a => pure a
  | .error e => Script.raise (.client e)

def measure (nodeId : String) (versionId : UUID) : Job Blob := do
  let measured ← Script.request (.verify nodeId versionId)
  ofClient measured

def verify (nodeId : String) (versionId : UUID) : Job Blob := do
  let measured ← Script.request (.verify nodeId versionId)
  ofClient (raiseOnInvalid measured)

def delete (nodeId : String) (versionId : UUID) : Job Unit := do
  let answer ← Script.request (.delete nodeId versionId)
  ofClient answer

def copy (sourceNodeId targetNodeId : String) (versionId : UUID) : Job Unit := do
  let opened ← Script.request (.stream sourceNodeId versionId)
  ofClient opened
  let answer ← Script.request (.put targetNodeId versionId)
  ofClient answer

def now : Job Time := Script.request .now

end Job

/-- The outcome of the next request: whether a storage call fails, the bytes that a `PUT` sends, and
what the other requests answer. -/
structure Outcome where
  fault : Option Fault := none
  received : Blob := { checksum := zeroChecksum, sizeBytes := 0 }
  health : Except Failure (NodeHealth × NodeStats) := .error .illTyped
  now : Time := 0
  taskId : String := ""

structure World where
  store : Store
  future : ℕ → Outcome

def World.pass (store : Store) (w : World) : World := ⟨store, fun n => w.future (n + 1)⟩

def serve : ∀ {β : Type}, Request β → World → β × World
  | _, .verify n i, w => (measureObject (w.future 0).fault n i w.store, w.pass w.store)
  | _, .delete n i, w =>
    let (answer, store) := deleteObject (w.future 0).fault n i w.store
    (answer, w.pass store)
  | _, .stream n i, w => (openStream (w.future 0).fault n i w.store, w.pass w.store)
  | _, .put n i, w =>
    let (answer, store) := putObject (w.future 0).fault n i (w.future 0).received w.store
    (answer, w.pass store)
  | _, .poll _, w => ((w.future 0).health, w.pass w.store)
  | _, .now, w => ((w.future 0).now, w.pass w.store)
  | _, .enqueue _ _, w => ((w.future 0).taskId, w.pass w.store)

end Vault.Storage
