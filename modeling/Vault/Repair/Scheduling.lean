import Vault.Repair.Execution
import Vault.Storage.Client

/-! How `RepairManager` chooses a source and a target and creates a job. A created job is committed
at once, and everything that the session has not committed yet with it; a job that is already
active is handed back and nothing is written. -/

namespace Vault.Repair

open Vault.Common Vault.Metadata Vault.Lib Vault.Lib.Transaction Vault.Lib.Transaction.Tx
open Vault.Storage (Job)

inductive Dispatch
  | reused (job : RepairJob)
  | created (job : RepairJob)
  deriving DecidableEq, Repr

def Dispatch.job : Dispatch → RepairJob
  | .reused job => job
  | .created job => job

def Active (s : JobStatus) : Prop := s = .pending ∨ s = .running

instance (s : JobStatus) : Decidable (Active s) := inferInstanceAs (Decidable (_ ∨ _))

def newerFirst (a b : Replica) : Bool :=
  match a.lastVerifiedAt, b.lastVerifiedAt with
  | none, none => a.nodeId ≤ b.nodeId
  | none, some _ => true
  | some _, none => false
  | some t, some u => u < t || (t == u && a.nodeId ≤ b.nodeId)

def healthyReplicas (db : Db) (versionId : UUID) : List Replica :=
  db.replicas.filter (fun r => r.versionId = versionId ∧ r.status = .healthy)

def healthySources (db : Db) (versionId : UUID) : List Replica :=
  ((healthyReplicas db versionId).mergeSort newerFirst).filter (fun r => r.checksum.isSome)

def roomierFirst (a b : StorageNode) : Bool :=
  b.freeBytes < a.freeBytes || (a.freeBytes == b.freeBytes && a.nodeId ≤ b.nodeId)

def Fits (version : Version) (n : StorageNode) : Prop :=
  n.status = .healthy ∧ version.sizeBytes ≤ n.freeBytes

instance (version : Version) (n : StorageNode) : Decidable (Fits version n) :=
  inferInstanceAs (Decidable (_ ∧ _))

def preferredNode (db : Db) (version : Version) (preferred : Option Replica) : Option StorageNode :=
  ((preferred.bind (fun r => db.node? r.nodeId))).filter (fun n => Fits version n)

def candidates (db : Db) (version : Version) : List StorageNode :=
  (db.nodes.filter (fun n => Fits version n ∧
    ∀ r ∈ db.replicas, r.versionId = version.versionId → r.nodeId ≠ n.nodeId)).mergeSort roomierFirst

def targetForVersion (db : Db) (version : Version) (preferred : Option Replica) :
    Option StorageNode :=
  (preferredNode db version preferred).or (candidates db version).head?

def activeJob (db : Db) (versionId : UUID) (targetNodeId : String) : Option RepairJob :=
  db.repairJobs.find? (fun j => j.versionId = versionId ∧ j.targetNodeId = targetNodeId ∧
    Active j.status)

def insertRepairJob (job : RepairJob) (db : Db) : Db :=
  { db with repairJobs := db.repairJobs ++ [job], nextId := db.nextId + 1 }

def jobReason : Arg String → String
  | .illTyped => "under-replicated"
  | .value s => if strip s = "" then "under-replicated" else strip s

def createJob (versionId : UUID) (sourceNodeId targetNodeId : String) (reason : Arg String) :
    Tx Dispatch := do
  let db ← read
  require (sourceNodeId = targetNodeId → ∃ r ∈ db.replicaOn? versionId targetNodeId,
      r.status = .corrupted)
    (.value "source and target may be the same node only for a corrupted replica repair")
  match activeJob db versionId targetNodeId with
  | some job => pure (.reused job)
  | none => do
    let _ ← demand (db.node? sourceNodeId) (.vault (objectNotFound sourceNodeId))
    let _ ← demand (db.node? targetNodeId) (.vault (objectNotFound targetNodeId))
    let job : RepairJob :=
      { repairId := db.newUuid, versionId := versionId, sourceNodeId := sourceNodeId,
        targetNodeId := targetNodeId, reason := jobReason reason }
    write (insertRepairJob job)
    pure (.created job)

def scheduleForVersion (versionId : UUID) (replicationFactor : ℤ) (reason : Arg String)
    (preferred : Option Replica) : Tx (Option Dispatch) := do
  require (1 ≤ replicationFactor) (.value "replication_factor must be a positive integer")
  let db ← read
  let version ← demand (db.version? versionId) (.vault (objectNotFound (toString versionId)))
  if replicationFactor ≤ (healthyReplicas db versionId).length ∧ preferred = none then pure none
  else
    let source ← demand (healthySources db versionId).head? (.vault (nodeUnavailable
      s!"No verified healthy source exists for version {versionId}."))
    let target ← demand (targetForVersion db version preferred) (.vault ⟨.insufficientReplicas,
      s!"No healthy target node can hold version {version.versionId}.", 503⟩)
    match activeJob db versionId target.nodeId with
    | some job => pure (some (.reused job))
    | none => do
      let dispatch ← createJob versionId source.nodeId target.nodeId reason
      pure (some dispatch)

def schedule (versionId : UUID) (replicationFactor : ℤ) (reason : Arg String)
    (preferred : Option Replica) : Job (Option RepairJob) := do
  let db ← Script.query
  match (scheduleForVersion versionId replicationFactor reason preferred).run db with
  | .error e => Script.raise e
  | .ok (none, _) => pure none
  | .ok (some (.reused job), _) => pure (some job)
  | .ok (some (.created job), _) => do
    Script.save (insertRepairJob job)
    pure (some job)

lemma createJob_ok {i : UUID} {n m : String} {reason : Arg String} {db db' : Db} {d : Dispatch}
    (h : (createJob i n m reason).run db = .ok (d, db')) :
    (∃ job, d = .reused job ∧ db' = db) ∨ ∃ job, d = .created job ∧ db' = insertRepairJob job db := by
  rw [createJob, bind_read, bind_require] at h
  obtain ⟨-, h⟩ := h
  split at h
  · cases h
    exact Or.inl ⟨_, rfl, rfl⟩
  · simp only [bind_demand, bind_write] at h
    obtain ⟨_, -, _, -, h⟩ := h
    cases h
    exact Or.inr ⟨_, rfl, rfl⟩

lemma scheduleForVersion_ok {i : UUID} {rf : ℤ} {reason : Arg String} {preferred : Option Replica}
    {db db' : Db} {d : Option Dispatch}
    (h : (scheduleForVersion i rf reason preferred).run db = .ok (d, db')) :
    ((∀ job, d ≠ some (.created job)) ∧ db' = db) ∨
      ∃ job, d = some (.created job) ∧ db' = insertRepairJob job db := by
  rw [scheduleForVersion, bind_require, bind_read, bind_demand] at h
  obtain ⟨-, version, -, h⟩ := h
  rw [run_ite, bind_demand] at h
  rcases h with ⟨-, h⟩ | ⟨-, source, -, h⟩
  · cases h
    exact Or.inl ⟨by simp, rfl⟩
  obtain ⟨target, -, h⟩ := bind_demand.mp h
  split at h
  · cases h
    exact Or.inl ⟨by simp, rfl⟩
  · obtain ⟨dispatch, db₁, hc, h⟩ := run_bind.mp h
    cases h
    rcases createJob_ok hc with ⟨job, rfl, rfl⟩ | ⟨job, rfl, rfl⟩
    · exact Or.inl ⟨by simp, rfl⟩
    · exact Or.inr ⟨job, rfl, rfl⟩

end Vault.Repair
