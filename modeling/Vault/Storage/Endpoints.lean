import Vault.Storage.Retries
import Vault.Storage.Soundness
import Vault.Storage.WriteOnce

/-! The endpoints of `node_server`, and a node that works off one request after the other. An exception that
no handler takes is answered with status 500. The security headers and the request id are left out. -/

namespace Vault.Storage

open Vault.Common Vault.Lib

namespace NodeServer

open StorageNodeClient (Received ContentLength)

def httpAnswer (r : HttpResponse) : Received := { r with }

def jsonAnswer (status : ℕ) (payload : Fields) : Received := httpAnswer ⟨status, .json (.dict payload)⟩

/-- `HEAD` and `GET` look up the size of the object. -/
def sizeAnswer : Except EngineError ℤ → Received
  | .ok size => { status := 200, body := .text, contentLength := .size size }
  | .error (.value message) => httpAnswer (httpError 400 message)
  | .error (.objectNotFound message) => httpAnswer (httpError 404 message)
  | .error _ => httpAnswer internalError

def headObject : Except EngineError ℤ → Received := sizeAnswer

/-- The chunks are read when they are sent. -/
def getObject : Except EngineError ℤ → Received := sizeAnswer

def putObject (k : Key) : Except EngineError ℕ → Received
  | .ok size => jsonAnswer 201 [("object_id", .str k.objectId), ("version_id", .str k.versionId), ("size_bytes", .int size)]
  | .error (.objectAlreadyExists message) => httpAnswer (httpError 409 message)
  | .error (.storageFull message) => httpAnswer (httpError 507 message)
  | .error (.type message) | .error (.value message) => httpAnswer (httpError 400 message)
  | .error (.storage message) | .error (.objectNotFound message) => httpAnswer (httpError 500 message)
  | .error .other => httpAnswer internalError

def deleteObject : Except EngineError Unit → Received
  | .ok _ => httpAnswer ⟨204, .text⟩
  | .error (.value message) => httpAnswer (httpError 400 message)
  | .error (.objectNotFound message) => httpAnswer (httpError 404 message)
  | .error _ => httpAnswer internalError

def health (nodeId : String) : Received := jsonAnswer 200 [("status", .str "healthy"), ("node_id", .str nodeId)]

/-- `engine.stats`, with what `disk_usage` shows. -/
def stats (nodeId : String) (cfg : EngineConfig) (free : ℕ) (e : Engine) : Received :=
  jsonAnswer 200
    [("node_id", .str nodeId), ("capacity_bytes", .int cfg.capacityBytes), ("used_bytes", .int e.usedBytes),
      ("free_bytes", .int (e.freeBytes cfg free))]

end NodeServer

/-- How `engine.delete` ends. -/
def Reply.result : Reply → Except EngineError Unit
  | .raised x => .error x
  | _ => .ok ()

/-- A request to a node. The body of a `PUT` comes in pieces, beside each what `disk_usage` shows. -/
inductive Call
  | head (k : Key)
  | get (k : Key)
  | put (k : Key) (uuid : String) (turns : List (Bytes × ℕ))
  | delete (k : Key)
  | verify (k : Key)
  | health
  | stats (free : ℕ)
  deriving DecidableEq, Repr

namespace NodeServer

open StorageNodeClient (Received)

variable (sha256 : Bytes → Checksum) (cfg : EngineConfig) (nodeId : String)

def dirOf (k : Key) (e : Engine) : Option Dir := (e.folder? k.path).map Folder.dir

def handle : Call → Engine → Engine × Received
  | .head k, e => (e, headObject (objectSize k (dirOf k e)))
  | .get k, e => (e, getObject (objectSize k (dirOf k e)))
  | .put k uuid turns, e =>
    let (e', size) := Chunking.writeStream sha256 cfg k uuid (turns.map Turn.ofBytes) e
    (e', putObject k size)
  | .delete k, e =>
    let (e', reply) := e.delete k
    (e', deleteObject reply.result)
  | .verify k, e => (e, httpAnswer (verifyObject (Storage.verify sha256 k (dirOf k e))))
  | .health, e => (e, health nodeId)
  | .stats free, e => (e, stats nodeId cfg free e)

end NodeServer

/-- What a node holds of an object version. A directory whose report does not come through counts as invalid bytes. -/
def measured (sha256 : Bytes → Checksum) (k : Key) (d : Dir) : Blob :=
  match verifyRemote sha256 false k (some d) with
  | .ok v => ⟨v.checksum, v.sizeBytes, v.valid⟩
  | .error _ => ⟨zeroChecksum, 0, false⟩

def heldDir (sha256 : Bytes → Checksum) (k : Key) : Option Dir → Option Blob
  | none => none
  | some d => if d.metadata.isFile then some (measured sha256 k d) else none

def held (sha256 : Bytes → Checksum) (k : Key) (e : Engine) : Option Blob := heldDir sha256 k (NodeServer.dirOf k e)

section Readings

open StorageNodeClient

variable {sha256 : Bytes → Checksum} {cfg : EngineConfig} {k : Key} {e : Engine} {d : Option Dir}

lemma heldDir_of_metadata (sha256 : Bytes → Checksum) {fields : Fields} (h : readMetadata k d = .ok fields) :
    ∃ dir, d = some dir ∧ heldDir sha256 k d = some (measured sha256 k dir) := by
  obtain ⟨dir, rfl, hdir⟩ := readMetadata_ok h
  have hfile : dir.metadata.isFile = true := by rw [hdir]; rfl
  exact ⟨dir, rfl, if_pos hfile⟩

lemma readMetadata_of_verify {r : VerificationResult} (h : verify sha256 k d = .ok r) (hc : r.checksum ≠ none) :
    ∃ fields, readMetadata k d = .ok fields := by
  obtain ⟨hk, -⟩ := verify_about h
  cases hm : readMetadata k d with
  | ok fields => exact ⟨fields, rfl⟩
  | error x =>
    by_cases hx : ∃ message, x = .storage message
    · obtain ⟨message, rfl⟩ := hx
      cases (verify_of_storage hk hm).symm.trans h
      exact absurd rfl hc
    · rw [verify_of_error hk hm fun message hs => hx ⟨message, hs⟩] at h
      cases h

/-- A report that comes through is about what the node holds. -/
lemma readReport_held (hk : k.Valid) {v : VerifiedObject}
    (h : NodeClient.readReport false k (NodeServer.verifyObject (verify sha256 k d)) = .ok v) :
    heldDir sha256 k d = some ⟨v.checksum, v.sizeBytes, v.valid⟩ := by
  have habout : ∀ r, verify sha256 k d = .ok r → r.About k := fun r hr => (verify_about hr).2
  have hseen : seen false (verify sha256 k d) = .ok v := (readReport_eq_seen hk habout false).symm.trans h
  cases hv : verify sha256 k d with
  | error x =>
    rw [hv] at hseen
    cases x <;> cases hseen
  | ok r =>
    have hc : r.checksum ≠ none := by
      intro hnone
      rw [hv] at hseen
      simp only [seen, received, hnone] at hseen
      split_ifs at hseen
    obtain ⟨fields, hmeta⟩ := readMetadata_of_verify hv hc
    obtain ⟨dir, rfl, hheld⟩ := heldDir_of_metadata sha256 hmeta
    rw [hheld, measured, verifyRemote_eq hk habout, hseen]
    rfl

lemma objectSize_held (sha256 : Bytes → Checksum) {n : ℤ} (h : objectSize k d = .ok n) :
    ∃ b, heldDir sha256 k d = some b := by
  simp only [objectSize, bind, Except.bind] at h
  split at h
  · cases h
  · split at h
    · cases h
    · rename_i fields hmeta
      obtain ⟨dir, -, hheld⟩ := heldDir_of_metadata sha256 hmeta
      exact ⟨_, hheld⟩

lemma sizeAnswer_success {x : Except EngineError ℤ} (h : (NodeServer.sizeAnswer x).status = 200) : ∃ n, x = .ok n := by
  cases x with
  | ok n => exact ⟨n, rfl⟩
  | error y => cases y <;> cases h

end Readings

section Effects

variable {sha256 : Bytes → Checksum} {cfg : EngineConfig} {k : Key} {e : Engine}

/-- The directories of the other keys are as they were. -/
def SameOthers (k : Key) (e e' : Engine) : Prop := ∀ k', k' ≠ k → NodeServer.dirOf k' e' = NodeServer.dirOf k' e

inductive Deletes (k : Key) (e : Engine) : Engine × Except EngineError Unit → Prop
  | done {e' : Engine} : NodeServer.dirOf k e' = none → SameOthers k e e' → Deletes k e (e', .ok ())
  | missing (message : String) : (∀ d ∈ NodeServer.dirOf k e, d.metadata.isFile = false) →
      Deletes k e (e, .error (.objectNotFound message))
  | refused (message : String) : Deletes k e (e, .error (.value message))

lemma delete_deletes (k : Key) (e : Engine) : Deletes k e ((e.delete k).1, (e.delete k).2.result) := by
  simp only [Engine.delete]
  cases hk : validateIds k with
  | error x =>
    have hx : ∃ message, x = .value message := by
      simp only [validateIds] at hk
      split_ifs at hk <;> cases hk <;> exact ⟨_, rfl⟩
    obtain ⟨message, rfl⟩ := hx
    exact .refused message
  | ok _ =>
    cases hf : e.folder? k.path with
    | none => exact .missing _ (by simp [NodeServer.dirOf, hf])
    | some f =>
      dsimp only
      split_ifs with hm
      · apply Deletes.done
        · have hnone : (e.removeTree k.path).folder? k.path = none :=
            Table.lookup_eq_none.mpr fun r hr => (Table.mem_remove.mp hr).2
          exact congrArg (Option.map Folder.dir) hnone
        · intro k' hk'
          have hpath : k'.path ≠ k.path := fun heq => hk' (Key.path_injective heq)
          have hsame : (e.removeTree k.path).folder? k'.path = e.folder? k'.path := Table.lookup_remove_ne hpath e.disk
          exact congrArg (Option.map Folder.dir) hsame
      · apply Deletes.missing
        simp [NodeServer.dirOf, hf, hm]

inductive Writes (sha256 : Bytes → Checksum) (cfg : EngineConfig) (k : Key) (content : Bytes) (e : Engine) :
    Engine × Except EngineError ℕ → Prop
  | done {e' : Engine} : k.Valid → NodeServer.dirOf k e = none →
      NodeServer.dirOf k e' = some (Chunking.canonicalDir sha256 cfg.chunkSizeBytes k content) → SameOthers k e e' →
      Writes sha256 cfg k content e (e', .ok content.length)
  | refused (x : EngineError) : Writes sha256 cfg k content e (e, .error x)

lemma writeStream_writes (sha256 : Bytes → Checksum) (cfg : EngineConfig) (k : Key) (uuid : String)
    (turns : List (Bytes × ℕ)) (e : Engine) :
    Writes sha256 cfg k (turns.map Prod.fst).flatten e
      (Chunking.writeStream sha256 cfg k uuid (turns.map Turn.ofBytes) e) := by
  rw [Chunking.writeStream_eq_outcome, Chunking.outcome]
  cases hs : e.createStagingDir k uuid with
  | error x => exact .refused x
  | ok staging =>
    cases hx : Chunking.refusal cfg e turns with
    | some x => exact .refused x
    | none =>
      dsimp only
      split_ifs with hf
      · exact .refused _
      · have hfree : e.folder? k.path = none := by simpa using hf
        have hvalid := (Engine.createStagingDir_ok hs).2.valid
        let f : Folder :=
          ⟨k.objectId, k.versionId, Chunking.canonicalDir sha256 cfg.chunkSizeBytes k (turns.map Prod.fst).flatten⟩
        apply Writes.done hvalid
        · exact congrArg (Option.map Folder.dir) hfree
        · have hadded : (e.addFolder f).folder? k.path = some f := Engine.folder?_addFolder (f := f) hfree
          exact congrArg (Option.map Folder.dir) hadded
        · intro k' hk'
          have hpath : f.path ≠ k'.path := fun heq => hk' (Key.path_injective heq).symm
          have hsame : (e.addFolder f).folder? k'.path = e.folder? k'.path := Table.lookup_concat_of_ne hpath
          exact congrArg (Option.map Folder.dir) hsame

end Effects

end Vault.Storage
