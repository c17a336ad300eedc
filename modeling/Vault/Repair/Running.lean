import Vault.Repair.Scheduling

/-! `RepairManager.run_job` as one program in a session of its own: what `Execution` does in steps, when nobody
else works on the tables meanwhile. The `SELECT`s at entry open the transaction that the commit of the `RUNNING`
mark closes, so the changes of the target row are savepoints until then. -/

namespace Vault.Repair

open Vault.Common Vault.Metadata Vault.Storage Vault.Lib Vault.Lib.Script

structure RepairResult where
  repairId : UUID
  versionId : UUID
  sourceNodeId : String
  targetNodeId : String
  status : JobStatus
  attempts : ℕ
  deriving DecidableEq, Repr

def repairResult (job : RepairJob) : RepairResult :=
  { repairId := job.repairId, versionId := job.versionId, sourceNodeId := job.sourceNodeId,
    targetNodeId := job.targetNodeId, status := job.status, attempts := job.attempts }

def matchesMetadata (measured : Blob) (version : Version) (message : String) : Job Unit :=
  require (measured.Matches version) (.client (integrity message))

def rebuildTarget (job : RepairJob) (version : Version) (replicaId : UUID) : Job Unit := do
  let verified ← Job.verify job.sourceNodeId version.versionId
  matchesMetadata verified version "Repair source verification does not match metadata."
  Job.delete job.targetNodeId version.versionId
  Job.copy job.sourceNodeId job.targetNodeId version.versionId
  let verified ← Job.verify job.targetNodeId version.versionId
  matchesMetadata verified version "Repair target verification does not match metadata."
  let now ← Job.now
  let _ ← transaction (markVerified Replica.status now replicaId verified.checksum verified.sizeBytes)
  pure ()

def finishJob (job : RepairJob) : Job RepairResult := do
  save (markJob job.repairId .succeeded none)
  pure (repairResult (job.mark .succeeded none))

def failJob (maxAttempts : ℕ) (job : RepairJob) (e : Failure) (message : String) : Job RepairResult := do
  let status := if maxAttempts ≤ job.attempts then JobStatus.failed else .pending
  save (markJob job.repairId status (some message))
  raise e

def recoverJob (maxAttempts : ℕ) (job : RepairJob) : Failure → Job RepairResult
  | .client e => failJob maxAttempts job (.client e) e.message
  | .vault e => failJob maxAttempts job (.vault e) e.message
  | e => raise e

def rejectJob (job : RepairJob) (error : String) (e : VaultError) : Job RepairResult := do
  save (markJob job.repairId .failed (some error))
  raise (.vault e)

def startJob (maxAttempts : ℕ) (job : RepairJob) (version : Version) (replica : Replica) : Job RepairResult := do
  let db ← query
  match db.node? job.targetNodeId, db.node? job.sourceNodeId with
  | none, _ => rejectJob job "Repair source or target node missing." (objectNotFound job.targetNodeId)
  | some _, none => rejectJob job "Repair source or target node missing." (objectNotFound job.sourceNodeId)
  | some target, some _ =>
    if target.status ≠ .healthy then
      rejectJob job "Repair target is not healthy."
        (nodeUnavailable s!"Repair target node {target.nodeId} is not healthy.")
    else do
      save (fun db => db.amendRepairJob job.repairId RepairJob.start)
      handle
        (do
          rebuildTarget job.start version replica.replicaId
          finishJob job.start)
        (recoverJob maxAttempts job.start)

def runJob (maxAttempts : ℕ) (repairId : UUID) : Job RepairResult := do
  let db ← query
  let job ← demand (db.repairJob? repairId) (.vault (objectNotFound (toString repairId)))
  if job.status = .succeeded ∨ job.status = .failed ∧ maxAttempts ≤ job.attempts then pure (repairResult job)
  else
    let version ← demand (db.version? job.versionId) (.vault (objectNotFound (toString job.versionId)))
    if ((healthySource db job).bind Replica.checksum).isNone then
      rejectJob job "Verified healthy source replica is unavailable."
        (nodeUnavailable "Verified healthy repair source is unavailable.")
    else do
      let replica ← transaction (replicaForTarget job)
      startJob maxAttempts job version replica

end Vault.Repair
