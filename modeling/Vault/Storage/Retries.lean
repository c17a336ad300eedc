import Vault.Lib.Attempts
import Vault.Storage.Client
import Vault.Storage.Wire

/-! `StorageNodeClient` over its transport: every request sent takes the next outcome, a timeout, another
`httpx.RequestError` or a response. The waits between two attempts change nothing and are left out. -/

namespace Vault.Storage.StorageNodeClient

open Vault.Common Vault.Lib Vault.Storage.NodeClient

/-- What `int` makes of the `Content-Length` header. -/
inductive ContentLength
  | missing
  | malformed
  | size (n : ℤ)
  deriving DecidableEq, Repr

/-- `bodyRead`: the content of a streamed response is there before it has been read, as it is for a response
made in memory. -/
structure Received extends HttpResponse where
  contentLength : ContentLength := .missing
  bodyRead : Bool := false
  deriving DecidableEq, Repr

inductive Transport
  | timeout
  | requestError
  | response (r : Received)
  deriving DecidableEq, Repr

structure Config where
  address : String
  maxAttempts : ℕ
  one_le_maxAttempts : 1 ≤ maxAttempts

inductive Operation
  | health | stats | head | read | write | verify | delete
  deriving DecidableEq, Repr

instance : ToString Operation where
  toString
    | .health => "health"
    | .stats => "stats"
    | .head => "head"
    | .read => "read"
    | .write => "write"
    | .verify => "verify"
    | .delete => "delete"

def safeRetryOperations : List Operation := [.health, .stats, .head, .read, .verify, .delete]

def unavailable (message : String) : ClientError := ⟨.unavailable, message⟩

/-- One pass of the loop in `_request`. -/
def requestAttempt (config : Config) (operation : Operation) (attempts attempt : ℕ) :
    Transport → Option (Except ClientError Received)
  | .response r => if r.status ∈ retryableStatusCodes ∧ attempt < attempts then none else some (.ok r)
  | .timeout =>
    if attempt ≥ attempts then
      some (.error (unavailable s!"Storage node {config.address} timed out during {operation}."))
    else none
  | .requestError =>
    if attempt ≥ attempts then
      some (.error (unavailable s!"Storage node {config.address} could not be reached during {operation}."))
    else none

/-- `_request`, with the number of HTTP requests it sends. -/
def request (config : Config) (operation : Operation) (retry : Bool) (outcomes : ℕ → Transport) :
    Except ClientError Received × ℕ :=
  let attempts := if retry ∧ operation ∈ safeRetryOperations then config.maxAttempts else 1
  attemptLoop (requestAttempt config operation attempts)
    (.error (unavailable s!"Storage node request failed during {operation}.")) outcomes (List.range' 1 attempts) 0

def expectStatus (expected : ℕ) (operation : String) (r : Received) : Except ClientError Unit :=
  if r.status ≠ expected then
    .error (protocolError s!"Expected {expected} from storage-node {operation}, got {r.status}.")
  else .ok ()

def readSize : ContentLength → Except ClientError ℕ
  | .missing => .error (protocolError "Storage-node HEAD response is missing Content-Length.")
  | .malformed => .error (protocolError "Storage-node HEAD returned a non-integer Content-Length.")
  | .size (.ofNat n) => .ok n
  | .size (.negSucc _) => .error (protocolError "Storage-node HEAD returned a negative Content-Length.")

def readHead (r : Received) : Except ClientError ℕ := do
  raiseForResponse r.status
  expectStatus 200 "HEAD" r
  readSize r.contentLength

/-- DELETE is idempotent: an absent object version is already deleted. -/
def readDeleted (r : Received) : Except ClientError Unit :=
  if r.status = 404 then .ok ()
  else do
    raiseForResponse r.status
    expectStatus 204 "DELETE" r

def readHealth (r : Received) : Except ClientError NodeHealth := do
  raiseForResponse r.status
  expectStatus 200 "health" r
  let payload ← jsonObject r.body
  let status ← requiredString payload "status"
  let nodeId ← requiredString payload "node_id"
  .ok ⟨status, nodeId⟩

structure NodeReport extends NodeStats where
  nodeId : String
  freeBytes : ℕ
  deriving DecidableEq, Repr

def readStats (r : Received) : Except ClientError NodeReport := do
  raiseForResponse r.status
  expectStatus 200 "stats" r
  let payload ← jsonObject r.body
  let nodeId ← requiredString payload "node_id"
  let capacityBytes ← requiredNonnegativeInt payload "capacity_bytes"
  let usedBytes ← requiredNonnegativeInt payload "used_bytes"
  let freeBytes ← requiredNonnegativeInt payload "free_bytes"
  if usedBytes > capacityBytes then
    .error (protocolError "Storage-node STATS reports used_bytes above capacity_bytes.")
  else if freeBytes > capacityBytes then
    .error (protocolError "Storage-node STATS reports free_bytes above capacity_bytes.")
  else .ok ⟨⟨capacityBytes, usedBytes⟩, nodeId, freeBytes⟩

structure StoredObject where
  objectId : String
  versionId : String
  sizeBytes : ℕ
  deriving DecidableEq, Repr

def readStored (k : Key) (r : Received) : Except ClientError StoredObject := do
  raiseForResponse r.status
  expectStatus 201 "PUT" r
  let payload ← jsonObject r.body
  let objectId ← requiredString payload "object_id"
  let versionId ← requiredString payload "version_id"
  let sizeBytes ← requiredNonnegativeInt payload "size_bytes"
  if objectId ≠ k.objectId ∨ versionId ≠ k.versionId then
    .error (protocolError "Storage node returned identifiers different from the request.")
  else .ok ⟨objectId, versionId, sizeBytes⟩

/-- The shape of an operation that goes through `_request`: its identifiers are checked, the request is made,
and the response is read. -/
def exchange {α : Type} (config : Config) (operation : Operation) (retry : Bool) (checks : Except Failure Unit)
    (read : Received → Except ClientError α) (outcomes : ℕ → Transport) : Except Failure α × ℕ :=
  match checks with
  | .error e => (.error e, 0)
  | .ok _ =>
    let answer := request config operation retry outcomes
    ((answer.1.bind read).mapError .client, answer.2)

def headObject (config : Config) (k : Key) : (ℕ → Transport) → Except Failure ℕ × ℕ :=
  exchange config .head true (validateIdentifiers k) readHead

def deleteObject (config : Config) (k : Key) : (ℕ → Transport) → Except Failure Unit × ℕ :=
  exchange config .delete true (validateIdentifiers k) readDeleted

def verifyObject (config : Config) (raiseOnInvalid : Bool) (k : Key) :
    (ℕ → Transport) → Except Failure VerifiedObject × ℕ :=
  exchange config .verify true (validateIdentifiers k) (fun r => readReport raiseOnInvalid k r.toHttpResponse)

def health (config : Config) : (ℕ → Transport) → Except Failure NodeHealth × ℕ :=
  exchange config .health true (.ok ()) readHealth

def stats (config : Config) : (ℕ → Transport) → Except Failure NodeReport × ℕ :=
  exchange config .stats true (.ok ()) readStats

/-- A `PUT` is not retried: a timeout can come after the node has committed the object. -/
def putObject (config : Config) (k : Key) : (ℕ → Transport) → Except Failure StoredObject × ℕ :=
  exchange config .write false (validateIdentifiers k) (readStored k)

/-- What becomes of a streamed response. A success other than 200 is to be a protocol error, whose detail is
the text of a body that nothing has read: `httpx.ResponseNotRead` comes out of it. -/
def openStreamed (r : Received) : Except Failure Received :=
  match raiseForResponse r.status with
  | .error e => .error (.client e)
  | .ok _ =>
    if r.status = 200 then .ok r
    else if r.bodyRead then .error (.client (protocolError s!"Expected 200 from storage-node GET, got {r.status}."))
    else .error (.other "Attempted to access streaming response content, without having called `read()`.")

/-- One pass of the loop in `stream_object`. -/
def streamAttempt (config : Config) (attempt : ℕ) : Transport → Option (Except Failure Received)
  | .timeout =>
    if attempt ≥ config.maxAttempts then
      some (.error (.client (unavailable s!"Storage node {config.address} timed out during GET.")))
    else none
  | .requestError =>
    if attempt ≥ config.maxAttempts then
      some (.error (.client (unavailable s!"Storage node {config.address} could not be reached.")))
    else none
  | .response r =>
    if r.status ∈ retryableStatusCodes ∧ attempt < config.maxAttempts then none else some (openStreamed r)

/-- Entering `stream_object`; a generator that ends without a response raises a `RuntimeError`. -/
def streamObject (config : Config) (k : Key) (outcomes : ℕ → Transport) : Except Failure Received × ℕ :=
  match validateIdentifiers k with
  | .error e => (.error e, 0)
  | .ok _ =>
    attemptLoop (streamAttempt config) (.error (.other "generator didn't yield")) outcomes
      (List.range' 1 config.maxAttempts) 0

/-- The operations that `_request` retries. -/
inductive Retried : Type → Type
  | head (k : Key) : Retried ℕ
  | delete (k : Key) : Retried Unit
  | verify (raiseOnInvalid : Bool) (k : Key) : Retried VerifiedObject
  | health : Retried NodeHealth
  | stats : Retried NodeReport

namespace Retried

def perform (config : Config) : ∀ {α : Type}, Retried α → (ℕ → Transport) → Except Failure α × ℕ
  | _, .head k => headObject config k
  | _, .delete k => deleteObject config k
  | _, .verify raiseOnInvalid k => verifyObject config raiseOnInvalid k
  | _, .health => StorageNodeClient.health config
  | _, .stats => StorageNodeClient.stats config

def operation : ∀ {α : Type}, Retried α → Operation
  | _, .head _ => .head
  | _, .delete _ => .delete
  | _, .verify _ _ => .verify
  | _, .health => .health
  | _, .stats => .stats

def checks : ∀ {α : Type}, Retried α → Except Failure Unit
  | _, .head k | _, .delete k | _, .verify _ k => validateIdentifiers k
  | _, .health | _, .stats => .ok ()

def read : ∀ {α : Type}, Retried α → Received → Except ClientError α
  | _, .head _ => readHead
  | _, .delete _ => readDeleted
  | _, .verify raiseOnInvalid k => fun r => readReport raiseOnInvalid k r.toHttpResponse
  | _, .health => readHealth
  | _, .stats => readStats

variable {α : Type}

lemma operation_safe (op : Retried α) : op.operation ∈ safeRetryOperations := by
  cases op <;> simp [operation, safeRetryOperations]

end Retried

end Vault.Storage.StorageNodeClient
