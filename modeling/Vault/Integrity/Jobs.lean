import Vault.Integrity.Verification

/-! `IntegrityManager.run_job`: a scan of one node, of one version or of every healthy node, recorded in a job row. -/

namespace Vault.Metadata

open Vault.Common

def IntegrityJob.start (j : IntegrityJob) : IntegrityJob :=
  { j with status := .running, attempts := j.attempts + 1, lastError := none }

def IntegrityJob.mark (status : JobStatus) (error : String) (j : IntegrityJob) : IntegrityJob :=
  { j with status := status, lastError := some error }

def IntegrityJob.finish (checked corrupted : ℕ) (j : IntegrityJob) : IntegrityJob :=
  { j with status := .succeeded, checkedCount := checked, corruptedCount := corrupted }

end Vault.Metadata

namespace Vault.Integrity

open Vault.Common Vault.Metadata Vault.Storage Vault.Lib Vault.Lib.Script

structure IntegrityJobResult where
  integrityId : UUID
  status : JobStatus
  attempts : ℕ
  checkedCount : ℕ
  corruptedCount : ℕ
  results : List IntegrityResult := []
  deriving DecidableEq, Repr

def integrityJobResult (job : IntegrityJob) (results : List IntegrityResult) : IntegrityJobResult :=
  { integrityId := job.integrityId, status := job.status, attempts := job.attempts,
    checkedCount := job.checkedCount, corruptedCount := job.corruptedCount, results := results }

structure JobConfig where
  replicationFactor : ℕ
  maxAttempts : ℕ
  replicationFactor_pos : 1 ≤ replicationFactor
  maxAttempts_pos : 1 ≤ maxAttempts

def byNodeId (rs : List Replica) : List Replica := rs.mergeSort (fun r s => r.nodeId ≤ s.nodeId)

def scanVersion (replicationFactor : ℕ) (versionId : UUID) : Job (List IntegrityResult) := do
  let db ← query
  let version ← demand (db.version? versionId) (.vault (objectNotFound (toString versionId)))
  if version.state ≠ .committed then pure []
  else
    let replicas := db.replicas.filter (fun r => r.versionId = versionId ∧ r.status = .healthy)
    forEach (verifyReplica replicationFactor) ((byNodeId replicas).map Replica.replicaId)

def healthyNodeIds (db : Db) : List String :=
  ((db.nodes.filter (fun n => n.status = .healthy)).map StorageNode.nodeId).mergeSort (fun n m => n ≤ m)

def scanJob (replicationFactor : ℕ) (job : IntegrityJob) : Job (List IntegrityResult) :=
  match job.nodeId, job.versionId with
  | some nodeId, _ => scanNode replicationFactor nodeId
  | none, some versionId => scanVersion replicationFactor versionId
  | none, none => do
    let db ← query
    let results ← forEach (scanNode replicationFactor) (healthyNodeIds db)
    pure results.flatten

def insertIntegrityJob (job : IntegrityJob) (db : Db) : Db :=
  { db with integrityJobs := db.integrityJobs ++ [job], nextId := db.nextId + 1 }

def createJob (nodeId : Option String) (versionId : Option UUID) : Job IntegrityJob := do
  let db ← query
  require (∀ n ∈ nodeId, (db.node? n).isSome) (.vault (objectNotFound (nodeId.getD "")))
  require (∀ i ∈ versionId, (db.version? i).isSome) (.vault (objectNotFound ((versionId.map toString).getD "")))
  let job : IntegrityJob := { integrityId := db.newUuid, nodeId := nodeId, versionId := versionId }
  save (insertIntegrityJob job)
  pure job

def finishJob (job : IntegrityJob) (results : List IntegrityResult) : Job IntegrityJobResult := do
  let finish := IntegrityJob.finish (results.countP IntegrityResult.checked) (results.countP IntegrityResult.corrupted)
  save (fun db => db.amendIntegrityJob job.integrityId finish)
  pure (integrityJobResult (finish job) results)

def failJob (cfg : JobConfig) (job : IntegrityJob) (e : Failure) (message : String) : Job IntegrityJobResult := do
  let status := if cfg.maxAttempts ≤ job.attempts then JobStatus.failed else .pending
  save (fun db => db.amendIntegrityJob job.integrityId (IntegrityJob.mark status message))
  raise e

def recoverJob (cfg : JobConfig) (job : IntegrityJob) : Failure → Job IntegrityJobResult
  | .client e => failJob cfg job (.client e) e.message
  | .vault e => failJob cfg job (.vault e) (toString e)
  | e => raise e

def startJob (cfg : JobConfig) (job : IntegrityJob) : Job IntegrityJobResult := do
  save (fun db => db.amendIntegrityJob job.integrityId IntegrityJob.start)
  handle
    (do
      let results ← scanJob cfg.replicationFactor job.start
      finishJob job.start results)
    (recoverJob cfg job.start)

def runJob (cfg : JobConfig) (integrityId : UUID) : Job IntegrityJobResult := do
  let db ← query
  let job ← demand (db.integrityJob? integrityId) (.vault (objectNotFound (toString integrityId)))
  if job.status = .succeeded ∨ job.status = .failed ∧ cfg.maxAttempts ≤ job.attempts then
    pure (integrityJobResult job [])
  else startJob cfg job

end Vault.Integrity
