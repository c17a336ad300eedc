import Vault.Gateway.Deletion
import Vault.Lib.Rules
import Vault.Placement.Selection
import Vault.Storage.Measurement

/-! `GET /objects/{name}`: `GatewayService.head`, `read_targets` and `preflight_read_target`, and the generator that
streams the body. What the gateway sends to its client is noted down: the headers once, and then the chunks. The
reply of a node to a streaming `GET` is the chunks that it sends and how its stream ends; a stream that cannot be
opened sends none. -/

namespace Vault.Gateway

open Vault.Common Vault.Metadata Vault.Storage Vault.Lib Vault.Lib.Script

/-- The exceptions of a stream: those of the client, those of its HTTP library, and all others. -/
inductive StreamError
  | client (e : ClientError)
  | http (message : String)
  | other (e : Failure)
  deriving DecidableEq, Repr

def StreamError.failure : StreamError → Failure
  | .client e => .client e
  | .http message => .other message
  | .other e => e

def StreamError.Caught : StreamError → Prop
  | .client _ => True
  | .http _ => True
  | .other _ => False

instance : DecidablePred StreamError.Caught
  | .client _ => inferInstanceAs (Decidable True)
  | .http _ => inferInstanceAs (Decidable True)
  | .other _ => inferInstanceAs (Decidable False)

structure Delivery where
  chunks : List Bytes
  ending : Option StreamError := none
  deriving DecidableEq, Repr

inductive ReadCall : Type → Type
  | connect (nodeId : String) : ReadCall (Except Failure Unit)
  | head (nodeId : String) (key : Key) : ReadCall (Except Failure ℕ)
  | stream (nodeId : String) (key : Key) : ReadCall Delivery
  | close (nodeId : String) : ReadCall (Except Failure Unit)

structure ObjectHeaders where
  contentLength : ℕ
  versionId : UUID
  versionNumber : ℕ
  checksum : Checksum
  deriving DecidableEq, Repr

inductive Sent
  | headers (h : ObjectHeaders)
  | chunk (data : Bytes)
  deriving DecidableEq, Repr

abbrev Download := Script Db Failure ReadCall Sent

def readCall {α : Type} (q : ReadCall (Except Failure α)) : Download α := do
  let answer ← request q
  lift answer

def getLiveObject (name : Arg String) (db : Db) : Except Failure Object :=
  match findObject db name with
  | .error e => .error e
  | .ok obj => if obj.state = .active then .ok obj else .error (.vault (objectNotFound obj.name))

def headObject (name : Arg String) (db : Db) : Except Failure (Object × Option Version) :=
  match getLiveObject name db with
  | .error e => .error e
  | .ok obj =>
    match obj.currentVersionId with
    | none => .ok (obj, none)
    | some versionId =>
      match db.version? versionId with
      | none => .error (.value "object current_version_id references a missing version")
      | some version => .ok (obj, if version.state = .committed then some version else none)

/-- The join of the nodes and the replica rows of a version, both `HEALTHY`. -/
def healthyTargets (db : Db) (versionId : UUID) : List StorageNode :=
  (db.nodes.flatMap fun n => (db.replicas.filter fun r =>
    r.nodeId = n.nodeId ∧ r.versionId = versionId ∧ r.status = .healthy ∧ n.status = .healthy).map fun _ => n).mergeSort
      fun a b => decide (a.nodeId ≤ b.nodeId)

def noHealthyReplica (name : String) : VaultError :=
  ⟨.nodeUnavailable, s!"No healthy replica is available for object '{name}'.", 503⟩

def readTargets (name : Arg String) (db : Db) : Except Failure (Object × Version × List StorageNode) :=
  match headObject name db with
  | .error e => .error e
  | .ok (obj, none) => .error (.vault (objectNotFound obj.name))
  | .ok (obj, some version) =>
    match healthyTargets db version.versionId with
    | [] => .error (.vault (noHealthyReplica obj.name))
    | n :: ns => .ok (obj, version, n :: ns)

def noneContacted : VaultError :=
  ⟨.nodeUnavailable, "No healthy replica could be contacted for the requested object.", 503⟩

def isClientError : Failure → Bool
  | .client _ => true
  | _ => false

def answersHead (key : Key) (nodeId : String) : Download Bool :=
  ensure
    (handle (do
      let _ ← readCall (.head nodeId key)
      pure true) fun e => if isClientError e then pure false else raise e)
    (readCall (.close nodeId))

def preflightReadTarget (key : Key) : List String → Download (String × List String)
  | [] => raise (.vault noneContacted)
  | n :: ns => do
    readCall (.connect n)
    let answered ← answersHead key n
    if answered then pure (n, n :: ns) else preflightReadTarget key ns

/-- One round of the generator: whether the body is complete. -/
def streamFrom (key : Key) (last : Bool) (nodeId : String) : Download Bool := do
  readCall (.connect nodeId)
  ensure (do
    let delivery ← request (.stream nodeId key)
    let _ ← forEach (fun data => remark (.chunk data)) delivery.chunks
    match delivery.ending with
    | none => pure true
    | some e => if e.Caught ∧ delivery.chunks = [] ∧ last = false then pure false else raise e.failure)
    (readCall (.close nodeId))

def body (key : Key) : List String → Download Unit
  | [] => pure ()
  | n :: ns => do
    let complete ← streamFrom key ns.isEmpty n
    if complete then pure () else body key ns

def headersOf (version : Version) : ObjectHeaders :=
  { contentLength := version.sizeBytes, versionId := version.versionId, versionNumber := version.versionNumber,
    checksum := version.checksum }

def objectKey (obj : Object) (version : Version) : Key := ⟨toString obj.objectId, toString version.versionId⟩

/-- The route: what it raises before the headers are sent is answered with an error, later the body breaks off. The
selected target heads the list of the remaining ones, so it is asked twice when its stream cannot be opened. -/
def getObject (name : Arg String) : Download Unit := do
  let db ← query
  let (obj, version, targets) ← lift (readTargets name db)
  let (selected, remaining) ← preflightReadTarget (objectKey obj version) (targets.map StorageNode.nodeId)
  remark (.headers (headersOf version))
  body (objectKey obj version) (selected :: remaining)

end Vault.Gateway
