import Vault.Common.Errors
import Vault.Lib.Folds
import Vault.Storage.Verification

/-! `VERIFY` on the wire: `node_server.verify_object` makes an HTTP answer of what the engine returns or
raises, and `StorageNodeClient.verify_object` reads it back with its own checks. An exception that no handler
takes, and a report that cannot be encoded as UTF-8, are answered with status 500. -/

namespace Vault.Storage

open Vault.Common Vault.Lib

inductive Body
  | json (d : Document)
  | text
  deriving DecidableEq, Repr

structure HttpResponse where
  status : ℕ
  body : Body
  deriving DecidableEq, Repr

def Text.decode (t : Text) : String := String.ofList (t.filterMap Sum.getLeft?)

namespace NodeServer

/-- `VerifyResponse`, as `model_dump` gives it. -/
def verifyResponse (r : VerificationResult) : Fields :=
  [("object_id", .str r.objectId), ("version_id", .str r.versionId), ("size_bytes", .int r.sizeBytes),
    ("checksum", r.checksum.elim .null (fun c => .str (toString c))), ("verified", .bool true),
    ("valid", .bool r.valid), ("chunk_count", .int r.chunkCount),
    ("corrupt_chunks", .list (r.corruptChunks.map (fun i => .int i))),
    ("errors", .list (r.errors.map (fun t => .str t.decode)))]

def httpError (status : ℕ) (detail : String) : HttpResponse :=
  ⟨status, .json (.dict [("detail", .str detail)])⟩

def internalError : HttpResponse := ⟨500, .text⟩

def verifyObject : Except EngineError VerificationResult → HttpResponse
  | .error (.value message) => httpError 400 message
  | .error (.objectNotFound message) => httpError 404 message
  | .error (.storage message) | .error (.objectAlreadyExists message) | .error (.storageFull message) =>
    httpError 500 message
  | .error (.type _) | .error .other => internalError
  | .ok r => if ∀ t ∈ r.errors, t.Encodable then ⟨200, .json (.dict (verifyResponse r))⟩ else internalError

end NodeServer

structure VerifiedObject where
  objectId : String
  versionId : String
  sizeBytes : ℕ
  checksum : Checksum
  valid : Bool
  deriving DecidableEq, Repr

def parseChecksum? (s : String) : Option Checksum :=
  if hs : s.toList.length = 64 then
    match hd : parseDigits s.toList with
    | some ds => some ⟨ds, length_digest hd hs⟩
    | none => none
  else none

namespace NodeClient

def ValidIdentifier (s : String) : Prop :=
  s ≠ "" ∧ s ≠ "." ∧ s ≠ ".." ∧ '/' ∉ s.toList ∧ '\\' ∉ s.toList ∧ '\x00' ∉ s.toList

instance (s : String) : Decidable (ValidIdentifier s) := inferInstanceAs (Decidable (_ ∧ _))

def validateIdentifiers (k : Key) : Except Failure Unit :=
  if ¬ValidIdentifier k.objectId then .error (.value "Invalid object_id")
  else if ¬ValidIdentifier k.versionId then .error (.value "Invalid version_id")
  else .ok ()

def protocolError (message : String) : ClientError := ⟨.protocol, message⟩

def retryableStatusCodes : List ℕ := [502, 503, 504]

def raiseForResponse (status : ℕ) : Except ClientError Unit :=
  if 200 ≤ status ∧ status ≤ 299 then .ok ()
  else if status = 400 ∨ status = 422 then .error ⟨.invalidRequest, "Storage node rejected the request."⟩
  else if status ∈ retryableStatusCodes then
    .error ⟨.unavailable, s!"Storage node returned transient HTTP {status}."⟩
  else if status = 404 then .error ⟨.objectNotFound, "Object/version was not found on the storage node."⟩
  else if status = 409 then .error ⟨.objectAlreadyExists, "Object/version already exists on the storage node."⟩
  else if status = 507 then .error ⟨.insufficientCapacity, "Storage node has insufficient capacity."⟩
  else .error (protocolError s!"Unexpected storage-node HTTP status {status}.")

def jsonObject : Body → Except ClientError Fields
  | .text => .error (protocolError "Storage node returned invalid JSON.")
  | .json .other => .error (protocolError "Storage node returned a non-object JSON payload.")
  | .json (.dict payload) => .ok payload

def requiredString (payload : Fields) (name : String) : Except ClientError String :=
  match payload.get name with
  | some (.str s) =>
    if s = "" then .error (protocolError s!"Storage node response is missing a valid '{name}' field.") else .ok s
  | _ => .error (protocolError s!"Storage node response is missing a valid '{name}' field.")

def requiredNonnegativeInt (payload : Fields) (name : String) : Except ClientError ℕ :=
  match payload.get name with
  | some (.int (.ofNat n)) => .ok n
  | _ => .error (protocolError s!"Storage node response is missing a valid non-negative '{name}' field.")

def requiredChecksum (payload : Fields) (name : String) : Except ClientError Checksum :=
  match payload.get name with
  | some (.str s) =>
    (parseChecksum? s).elim (.error (protocolError "Storage node response is missing a valid SHA-256 checksum."))
      .ok
  | _ => .error (protocolError "Storage node response is missing a valid SHA-256 checksum.")

def requireVerified (payload : Fields) : Except ClientError Unit :=
  match payload.get "verified" with
  | none =>
    .error (protocolError "Storage node VERIFY response must include an explicit verified field.")
  | some (.bool true) => .ok ()
  | some _ => .error (protocolError "Storage node VERIFY response must explicitly report verified=true.")

def validFlag (payload : Fields) : Except ClientError Bool :=
  match payload.get "valid" with
  | none => .ok true
  | some (.bool b) => .ok b
  | some _ => .error (protocolError "Storage node VERIFY response has an invalid 'valid' field.")

def invalidStoredData : ClientError :=
  ⟨.integrity, "Storage node reported that stored data failed integrity verification."⟩

def readReport (raiseOnInvalid : Bool) (k : Key) (response : HttpResponse) : Except ClientError VerifiedObject := do
  raiseForResponse response.status
  if response.status ≠ 200 then
    .error (protocolError s!"Expected 200 from storage-node VERIFY, got {response.status}.")
  else
    let payload ← jsonObject response.body
    requireVerified payload
    let valid ← validFlag payload
    let objectId ← requiredString payload "object_id"
    let versionId ← requiredString payload "version_id"
    let sizeBytes ← requiredNonnegativeInt payload "size_bytes"
    let checksum ← requiredChecksum payload "checksum"
    if objectId ≠ k.objectId ∨ versionId ≠ k.versionId then
      .error (protocolError "Storage-node VERIFY returned identifiers different from the request.")
    else if ¬valid ∧ raiseOnInvalid then .error invalidStoredData
    else .ok ⟨objectId, versionId, sizeBytes, checksum, valid⟩

def verifyObject (raiseOnInvalid : Bool) (k : Key) (response : HttpResponse) : Except Failure VerifiedObject := do
  validateIdentifiers k
  (readReport raiseOnInvalid k response).mapError .client

end NodeClient

/-- The client's `verify_object` on a node that holds this directory for the version. -/
def verifyRemote (sha256 : Bytes → Checksum) (raiseOnInvalid : Bool) (k : Key) (d : Option Dir) :
    Except Failure VerifiedObject :=
  NodeClient.verifyObject raiseOnInvalid k (NodeServer.verifyObject (verify sha256 k d))

end Vault.Storage
