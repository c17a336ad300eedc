import Vault.Metadata.Replicas
import Vault.Storage.Store

/-! `RepairManager.run_job` as a machine whose steps are its storage calls and its commits. The
first step is everything up to the commit that marks the job `RUNNING`; it may also end the
execution. `refresh` says whether a locked SELECT refreshes a row that the session has loaded
before: when it does not, the session still sees the target row as `REPAIRING`. After a
transaction of its own has been rolled back, the session reads the job again. -/

namespace Vault.Metadata

open Vault.Common

def RepairJob.mark (status : JobStatus) (error : Option String) (j : RepairJob) : RepairJob :=
  { j with status := status, lastError := error }

def RepairJob.start (j : RepairJob) : RepairJob :=
  { j with status := .running, attempts := j.attempts + 1, lastError := none }

end Vault.Metadata

namespace Vault.Repair

open Vault.Common Vault.Metadata Vault.Storage Vault.Lib Vault.Lib.Transaction
open Vault.Lib.Transaction.Tx

def nodeUnavailable (message : String) : VaultError := ⟨.nodeUnavailable, message, 503⟩

def markJob (repairId : UUID) (status : JobStatus) (error : Option String) (db : Db) : Db :=
  db.amendRepairJob repairId (RepairJob.mark status error)

def findOrCreateReplica (versionId : UUID) (nodeId : String) : Tx Replica := do
  let db ← read
  match db.replicaOn? versionId nodeId with
  | some replica => pure replica
  | none => createReplica (.value versionId) (.value nodeId)

def replicaForTarget (job : RepairJob) : Tx Replica := do
  let replica ← findOrCreateReplica job.versionId job.targetNodeId
  require (replica.status ≠ .healthy) (.vault
    ⟨.repairInProgress, s!"Target node {job.targetNodeId} is already healthy.", 409⟩)
  if replica.status ∈ [.pending, .corrupted, .stale, .unavailable] then
    setReplicaState (.value replica.replicaId) (.value .repairing)
  else
    require (replica.status = .repairing) (.vault ⟨.invalidRequest,
      s!"Replica {replica.replicaId} cannot be used as a repair target from state {replica.status}.",
      409⟩)
    pure replica

inductive Phase
  | verifySource
  | deleteTarget
  | openStream
  | putTarget
  | verifyTarget
  | markHealthy (measured : Blob)
  | succeed
  | fail (message : String) (attempts : Option ℕ)
  deriving DecidableEq, Repr

structure Execution where
  job : RepairJob
  version : Version
  replicaId : UUID
  phase : Phase := .verifySource
  deriving DecidableEq, Repr

def Execution.place (e : Execution) : UUID × String := (e.job.versionId, e.job.targetNodeId)

def healthySource (db : Db) (job : RepairJob) : Option Replica :=
  db.replicas.find? (fun r => r.versionId = job.versionId ∧ r.nodeId = job.sourceNodeId ∧
    r.status = .healthy)

inductive Begun
  | returned (job : RepairJob)
  | raised (e : Failure)
  | running (e : Execution)
  deriving DecidableEq, Repr

def beginJob (maxAttempts : ℕ) (repairId : UUID) : Tx Begun := do
  let db ← read
  let job ← demand (db.repairJob? repairId) (.vault (objectNotFound (toString repairId)))
  if job.status = .succeeded ∨ job.status = .failed ∧ maxAttempts ≤ job.attempts then
    pure (.returned job)
  else
    let version ← demand (db.version? job.versionId) (.vault (objectNotFound (toString job.versionId)))
    if ((healthySource db job).bind Replica.checksum).isNone then
      write (markJob repairId .failed (some "Verified healthy source replica is unavailable."))
      pure (.raised (.vault (nodeUnavailable "Verified healthy repair source is unavailable.")))
    else
      let replica ← replicaForTarget job
      let db ← read
      match db.node? job.targetNodeId, db.node? job.sourceNodeId with
      | none, _ =>
        write (markJob repairId .failed (some "Repair source or target node missing."))
        pure (.raised (.vault (objectNotFound job.targetNodeId)))
      | some _, none =>
        write (markJob repairId .failed (some "Repair source or target node missing."))
        pure (.raised (.vault (objectNotFound job.sourceNodeId)))
      | some target, some _ =>
        if target.status ≠ .healthy then
          write (markJob repairId .failed (some "Repair target is not healthy."))
          pure (.raised (.vault (nodeUnavailable
            s!"Repair target node {target.nodeId} is not healthy.")))
        else
          write (fun db => db.amendRepairJob repairId RepairJob.start)
          pure (.running
            { job := job.start, version := version, replicaId := replica.replicaId })

def Begun.execution : Begun → Option Execution
  | .running e => some e
  | _ => none

def startExecution (maxAttempts : ℕ) (repairId : UUID) (db : Db) : Option Execution × Db :=
  match atomic (beginJob maxAttempts repairId) db with
  | (.ok b, db) => (b.execution, db)
  | (.error _, db) => (none, db)

structure Config where
  refresh : Bool
  maxAttempts : ℕ

def Execution.enter (phase : Phase) (e : Execution) : Execution := { e with phase := phase }

def Execution.caught (c : ClientError) (e : Execution) : Execution :=
  e.enter (.fail c.message (some e.job.attempts))

def Execution.accept (message : String) (next : Blob → Phase) (e : Execution) :
    Except ClientError Blob → Execution
  | .ok b => if b.Matches e.version then e.enter (next b) else e.caught (integrity message)
  | .error c => e.caught c

def Execution.after (next : Phase) (e : Execution) : Except ClientError Unit → Execution
  | .ok _ => e.enter next
  | .error c => e.caught c

def Config.failedStatus (cfg : Config) (attempts : ℕ) : JobStatus :=
  if cfg.maxAttempts ≤ attempts then .failed else .pending

def Execution.step (cfg : Config) (fault : Option Fault) (received : Blob) (now : Time)
    (e : Execution) (db : Db) (s : Store) : Option Execution × Db × Store :=
  let i := e.version.versionId
  match e.phase with
  | .verifySource =>
    (some (e.accept "Repair source verification does not match metadata." (fun _ => .deleteTarget)
      (verifyObject fault e.job.sourceNodeId i s)), db, s)
  | .deleteTarget =>
    let (answer, s) := deleteObject fault e.job.targetNodeId i s
    (some (e.after .openStream answer), db, s)
  | .openStream => (some (e.after .putTarget (openStream fault e.job.sourceNodeId i s)), db, s)
  | .putTarget =>
    let (answer, s) := putObject fault e.job.targetNodeId i received s
    (some (e.after .verifyTarget answer), db, s)
  | .verifyTarget =>
    (some (e.accept "Repair target verification does not match metadata." .markHealthy
      (verifyObject fault e.job.targetNodeId i s)), db, s)
  | .markHealthy measured =>
    let seen (r : Replica) : ReplicaState := if cfg.refresh then r.status else .repairing
    match atomic (markVerified seen now e.replicaId measured.checksum measured.sizeBytes) db with
    | (.ok _, db) => (some (e.enter .succeed), db, s)
    | (.error (.vault f), db) => (some (e.enter (.fail f.message none)), db, s)
    | (.error _, db) => (none, db, s)
  | .succeed => (none, markJob e.job.repairId .succeeded none db, s)
  | .fail message attempts =>
    let attempts := attempts.getD ((db.repairJob? e.job.repairId).elim 0 RepairJob.attempts)
    (none, markJob e.job.repairId (cfg.failedStatus attempts) (some message) db, s)

end Vault.Repair
