import Vault.Repair.Target

/-! What one step of a running execution can do: move on, change the bytes of its own target,
record a measurement of them, mark its own row `HEALTHY`, or write its job and end. -/

namespace Vault.Repair

open Vault.Common Vault.Metadata Vault.Storage Vault.Lib Vault.Lib.Transaction

inductive Advance (e : Execution) (db : Db) (s : Store) : Option Execution → Db → Store → Prop
  | moved (phase : Phase) : e.phase ≠ .succeed → (∀ b, phase ≠ .markHealthy b) →
      Advance e db s (some (e.enter phase)) db s
  | stored (phase : Phase) (b : Option Blob) : e.phase ≠ .succeed → (∀ b, phase ≠ .markHealthy b) →
      Advance e db s (some (e.enter phase)) db (s.set e.job.targetNodeId e.version.versionId b)
  | verified (b : Blob) : e.phase ≠ .succeed → s e.job.targetNodeId e.version.versionId = some b →
      b.Matches e.version → Advance e db s (some (e.enter (.markHealthy b))) db s
  | marked {b : Blob} {seen : Replica → ReplicaState} {now : Time} {row : Replica} {db' : Db} :
      e.phase = .markHealthy b →
      (markVerified seen now e.replicaId b.checksum b.sizeBytes).run db = .ok (row, db') →
      Advance e db s (some (e.enter .succeed)) db' s
  | closed (f : RepairJob → RepairJob) : Advance e db s none (db.amendRepairJob e.job.repairId f) s

variable {e : Execution} {db : Db} {s : Store}

lemma advance_after {next : Phase} (hp : e.phase ≠ .succeed) (hn : ∀ b, next ≠ .markHealthy b)
    (answer : Except ClientError Unit) : Advance e db s (some (e.after next answer)) db s := by
  cases answer with
  | ok _ => exact .moved next hp hn
  | error c => exact .moved _ hp (by simp)

lemma advance_after_set {next : Phase} (hp : e.phase ≠ .succeed) (hn : ∀ b, next ≠ .markHealthy b)
    (answer : Except ClientError Unit) (b : Option Blob) : Advance e db s (some (e.after next answer)) db
      (s.set e.job.targetNodeId e.version.versionId b) := by
  cases answer with
  | ok _ => exact .stored next b hp hn
  | error c => exact .stored _ b hp (by simp)

lemma execution_step_advance (cfg : Config) (fault : Option Fault) (received : Blob) (now : Time)
    (e : Execution) (db : Db) (s : Store) :
    Advance e db s (e.step cfg fault received now db s).1 (e.step cfg fault received now db s).2.1
      (e.step cfg fault received now db s).2.2 := by
  unfold Execution.step
  cases hp : e.phase with
  | verifySource =>
    dsimp only
    cases verifyObject fault e.job.sourceNodeId e.version.versionId s with
    | error c => exact .moved _ (by simp [hp]) (by simp)
    | ok b =>
      by_cases hm : b.Matches e.version
      · simp only [Execution.accept, hm, if_true]
        exact .moved _ (by simp [hp]) (by simp)
      · simp only [Execution.accept, hm, if_false]
        exact .moved _ (by simp [hp]) (by simp)
  | deleteTarget =>
    dsimp only
    have hne : e.phase ≠ .succeed := by simp [hp]
    rcases deleteObject_store fault e.job.targetNodeId e.version.versionId s with hs | hs
    · rw [hs]
      exact advance_after hne (by simp) _
    · rw [hs]
      exact advance_after_set hne (by simp) _ _
  | openStream => exact advance_after (by simp [hp]) (by simp) _
  | putTarget =>
    dsimp only
    have hne : e.phase ≠ .succeed := by simp [hp]
    rcases putObject_store fault e.job.targetNodeId e.version.versionId received s with hs | hs
    · rw [hs]
      exact advance_after hne (by simp) _
    · rw [hs]
      exact advance_after_set hne (by simp) _ _
  | verifyTarget =>
    dsimp only
    cases hv : verifyObject fault e.job.targetNodeId e.version.versionId s with
    | error c => exact .moved _ (by simp [hp]) (by simp)
    | ok b =>
      by_cases hm : b.Matches e.version
      · simp only [Execution.accept, hm, if_true]
        exact .verified b (by simp [hp]) (verifyObject_ok hv) hm
      · simp only [Execution.accept, hm, if_false]
        exact .moved _ (by simp [hp]) (by simp)
  | markHealthy measured =>
    dsimp only
    rcases atomic_cases (markVerified (fun r => if cfg.refresh then r.status else .repairing) now
      e.replicaId measured.checksum measured.sizeBytes) db with ⟨row, db', hb, he⟩ | ⟨f, -, he⟩
    · rw [he]
      exact .marked hp hb
    · rw [he]
      cases f with
      | vault v => exact .moved _ (by simp [hp]) (by simp)
      | _ =>
        have hc : Advance e db s none (db.amendRepairJob e.job.repairId id) s := .closed id
        rwa [amendRepairJob_id] at hc
  | succeed => exact .closed _
  | fail message attempts => exact .closed _

end Vault.Repair
