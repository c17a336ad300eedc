import Vault.Lib.Runs
import Vault.Storage.Verification

/-! `StorageEngine` as a state machine. The directories are those below `objects`; a `write_stream` call
is a row of `writers` from the step that starts it to the step that ends it. Its steps are the sections
that the lock delimits: start, accept one piece, publish, account; or fail, clean up, release.
`write_bytes` and `delete` are single steps. A publication that fails removes the staging directory in the
same step. Object directories without entries carry nothing and are left out. -/

namespace Vault.Storage

open Vault.Common Vault.Lib

structure EngineConfig where
  capacityBytes : ℕ
  chunkSizeBytes : ℕ
  capacityBytes_pos : 0 < capacityBytes
  chunkSizeBytes_pos : 0 < chunkSizeBytes

/-- The directory `objects/<objectId>/<name>`. -/
structure Folder where
  objectId : String
  name : String
  dir : Dir
  deriving DecidableEq, Repr

def Folder.path (f : Folder) : String × String := (f.objectId, f.name)

def Key.path (k : Key) : String × String := (k.objectId, k.versionId)

/-- Where a `write_stream` call stands. -/
inductive Phase
  | receiving
  | published
  | failing (e : EngineError)
  | cleaned (e : EngineError)
  deriving DecidableEq, Repr

structure Writer where
  id : ℕ
  key : Key
  staging : String
  reservedBytes : ℕ := 0
  blocks : Blocks UInt8 := {}
  phase : Phase := .receiving
  deriving DecidableEq, Repr

def Writer.stagingPath (w : Writer) : String × String := (w.key.objectId, w.staging)

def Writer.enter (phase : Phase) (w : Writer) : Writer := { w with phase := phase }

structure Engine where
  disk : List Folder := []
  usedBytes : ℕ := 0
  reservedBytes : ℕ := 0
  inflight : List Key := []
  writers : List Writer := []
  deriving DecidableEq, Repr

inductive Piece
  | bytes (b : Bytes)
  | other
  deriving DecidableEq, Repr

inductive Action
  | start (id : ℕ) (k : Key) (uuid : String)
  | accept (id : ℕ) (piece : Piece) (free : ℕ)
  | interrupt (id : ℕ) (e : EngineError)
  | publish (id : ℕ)
  | account (id : ℕ)
  | cleanup (id : ℕ)
  | release (id : ℕ)
  | writeBytes (k : Key) (data : Piece) (uuid : String) (free : ℕ)
  | delete (k : Key)
  deriving DecidableEq, Repr

/-- What the call of which this is a step shows its caller: nothing yet, that its object is published, a
result or an exception. -/
inductive Reply
  | idle
  | published (k : Key) (content : Bytes)
  | returned (size : ℕ)
  | wrote (k : Key) (content : Bytes)
  | deleted (k : Key)
  | raised (e : EngineError)
  deriving DecidableEq, Repr

def chunkEntries (chunks : List Bytes) : List (Text × Entry) :=
  chunks.mapIdx (fun i c => (chunkName i, Entry.plain c))

def objectFields (sha256 : Bytes → Checksum) (cfg : EngineConfig) (k : Key) (chunks : List Bytes) : Fields :=
  [("object_id", .str k.objectId), ("version_id", .str k.versionId),
    ("size_bytes", .int chunks.flatten.length), ("chunk_size_bytes", .int cfg.chunkSizeBytes),
    ("chunk_count", .int chunks.length), ("checksum", .str (toString (sha256 chunks.flatten))),
    ("chunk_checksums", .list (chunks.map (fun c => .str (toString (sha256 c)))))]

def objectDir (sha256 : Bytes → Checksum) (cfg : EngineConfig) (k : Key) (chunks : List Bytes) : Dir :=
  { metadata := .document (.dict (objectFields sha256 cfg k chunks)), entries := chunkEntries chunks }

def stagingDir (b : Blocks UInt8) : Dir := { entries := chunkEntries b.finish }

def Entry.sizeBytes : Entry → ℕ
  | .file _ size _ => size
  | _ => 0

def payloadBytes (d : Dir) : ℕ :=
  ((d.entries.filter (fun p => p.1.HasChunkPrefix)).map (fun p => p.2.sizeBytes)).sum

namespace Engine

def folder? (e : Engine) (path : String × String) : Option Folder := Table.lookup Folder.path path e.disk

def writer? (e : Engine) (id : ℕ) : Option Writer := Table.lookup Writer.id id e.writers

def Exists (e : Engine) (k : Key) : Prop := ∃ f ∈ e.folder? k.path, f.dir.metadata.isFile = true

instance (e : Engine) (k : Key) : Decidable (e.Exists k) :=
  inferInstanceAs (Decidable (∃ f ∈ e.folder? k.path, _))

def alreadyExists (k : Key) : EngineError := .objectAlreadyExists s!"Object version already exists: {k}"

def amendWriter (id : ℕ) (f : Writer → Writer) (e : Engine) : Engine :=
  { e with writers := Table.amend Writer.id id f e.writers }

def removeTree (path : String × String) (e : Engine) : Engine :=
  { e with disk := Table.remove Folder.path path e.disk }

def addFolder (f : Folder) (e : Engine) : Engine := { e with disk := e.disk ++ [f] }

def ensureNewObject (k : Key) (e : Engine) : Except EngineError Unit :=
  if k ∈ e.inflight ∨ e.Exists k then .error (alreadyExists k) else .ok ()

/-- The checks of a write and its staging directory. A directory of that name makes `mkdir` fail. -/
def createStagingDir (k : Key) (uuid : String) (e : Engine) : Except EngineError String := do
  validateIds k
  e.ensureNewObject k
  let staging := stagingName k.versionId uuid
  if (e.folder? (k.objectId, staging)).isSome then .error .other else .ok staging

def freeBytes (cfg : EngineConfig) (free : ℕ) (e : Engine) : ℕ :=
  min (cfg.capacityBytes - e.usedBytes - e.reservedBytes) free

def storageFull (required free : ℕ) : EngineError :=
  .storageFull s!"Insufficient storage capacity: required={required}, free={free}"

def reserveCapacity (cfg : EngineConfig) (free required : ℕ) (e : Engine) : Except EngineError Engine :=
  if e.freeBytes cfg free < required then .error (storageFull required (e.freeBytes cfg free))
  else .ok { e with reservedBytes := e.reservedBytes + required }

def releaseCapacity (released : ℕ) (e : Engine) : Engine :=
  { e with reservedBytes := e.reservedBytes - released }

def discard (k : Key) (e : Engine) : Engine := { e with inflight := e.inflight.filter (· ≠ k) }

def start (id : ℕ) (k : Key) (uuid : String) (e : Engine) : Engine × Reply :=
  match e.writer? id with
  | some _ => (e, .idle)
  | none =>
    match e.createStagingDir k uuid with
    | .error x => (e, .raised x)
    | .ok staging =>
      ({ e with
         disk := e.disk ++ [⟨k.objectId, staging, {}⟩]
         inflight := k :: e.inflight
         writers := e.writers ++ [{ id := id, key := k, staging := staging }] }, .idle)

def storePiece (cfg : EngineConfig) (w : Writer) (b : Bytes) (e : Engine) : Engine :=
  let blocks := w.blocks.feed cfg.chunkSizeBytes b
  { e with
    disk := Table.amend Folder.path w.stagingPath (fun f => { f with dir := stagingDir blocks }) e.disk
    writers := Table.amend Writer.id w.id
      (fun w => { w with reservedBytes := w.reservedBytes + b.length, blocks := blocks }) e.writers }

def acceptPiece (cfg : EngineConfig) (w : Writer) (free : ℕ) (e : Engine) : Piece → Engine
  | .other => e.amendWriter w.id (Writer.enter (.failing (.type "request stream must yield bytes")))
  | .bytes [] => e
  | .bytes b =>
    match e.reserveCapacity cfg free b.length with
    | .error x => e.amendWriter w.id (Writer.enter (.failing x))
    | .ok e => e.storePiece cfg w b

variable (sha256 : Bytes → Checksum) (cfg : EngineConfig)

def publishStaging (w : Writer) (e : Engine) : Engine × Reply :=
  if (e.folder? w.key.path).isSome then
    ((e.removeTree w.stagingPath).amendWriter w.id (Writer.enter (.cleaned (alreadyExists w.key))), .idle)
  else
    (((e.removeTree w.stagingPath).addFolder
      ⟨w.key.objectId, w.key.versionId, objectDir sha256 cfg w.key w.blocks.finish⟩).amendWriter w.id
        (Writer.enter .published), .published w.key w.blocks.contents)

def removeWriter (id : ℕ) (e : Engine) : Engine :=
  { e with writers := Table.remove Writer.id id e.writers }

def accountObject (w : Writer) (e : Engine) : Engine :=
  let e := e.releaseCapacity w.reservedBytes
  ({ e with usedBytes := e.usedBytes + w.blocks.contents.length }.discard w.key).removeWriter w.id

def releaseWrite (w : Writer) (e : Engine) : Engine :=
  ((e.releaseCapacity w.reservedBytes).discard w.key).removeWriter w.id

/-- `write_bytes` under the lock: the staging directory, the reservation and the entry in the in-flight
set are gone when it ends, so only what is published is left. -/
def writeBytes (k : Key) (uuid : String) (free : ℕ) (e : Engine) : Piece → Engine × Reply
  | .other => (e, .raised (.type "data must be bytes"))
  | .bytes b =>
    match e.createStagingDir k uuid with
    | .error x => (e, .raised x)
    | .ok _ =>
      if e.freeBytes cfg free < b.length then (e, .raised (storageFull b.length (e.freeBytes cfg free)))
      else if (e.folder? k.path).isSome then (e, .raised (alreadyExists k))
      else
        let chunks := (({} : Blocks UInt8).feed cfg.chunkSizeBytes b).finish
        ({ e.addFolder ⟨k.objectId, k.versionId, objectDir sha256 cfg k chunks⟩ with
           usedBytes := e.usedBytes + b.length }, .wrote k b)

def notFound (k : Key) : EngineError := .objectNotFound s!"Object version not found: {k}"

def delete (k : Key) (e : Engine) : Engine × Reply :=
  match validateIds k with
  | .error x => (e, .raised x)
  | .ok _ =>
    match e.folder? k.path with
    | none => (e, .raised (notFound k))
    | some f =>
      if f.dir.metadata.isFile then
        ({ e.removeTree k.path with usedBytes := e.usedBytes - payloadBytes f.dir }, .deleted k)
      else (e, .raised (notFound k))

/-- The step of a write that is in the phase asked for; any other step does nothing. -/
def advance (id : ℕ) (e : Engine) (f : Writer → Engine × Reply) : Engine × Reply :=
  match e.writer? id with
  | some w => f w
  | none => (e, .idle)

def perform (e : Engine) : Action → Engine × Reply
  | .start id k uuid => e.start id k uuid
  | .accept id piece free => e.advance id fun w =>
    match w.phase with
    | .receiving => (e.acceptPiece cfg w free piece, .idle)
    | _ => (e, .idle)
  | .interrupt id x => e.advance id fun w =>
    match w.phase with
    | .receiving => (e.amendWriter id (Writer.enter (.failing x)), .idle)
    | _ => (e, .idle)
  | .publish id => e.advance id fun w =>
    match w.phase with
    | .receiving => e.publishStaging sha256 cfg w
    | _ => (e, .idle)
  | .account id => e.advance id fun w =>
    match w.phase with
    | .published => (e.accountObject w, .returned w.blocks.contents.length)
    | _ => (e, .idle)
  | .cleanup id => e.advance id fun w =>
    match w.phase with
    | .failing x => ((e.removeTree w.stagingPath).amendWriter id (Writer.enter (.cleaned x)), .idle)
    | _ => (e, .idle)
  | .release id => e.advance id fun w =>
    match w.phase with
    | .cleaned x => (e.releaseWrite w, .raised x)
    | _ => (e, .idle)
  | .writeBytes k data uuid free => e.writeBytes sha256 cfg k uuid free data
  | .delete k => e.delete k

def step (e : Engine) (a : Action) : Engine := (e.perform sha256 cfg a).1

end Engine

end Vault.Storage
