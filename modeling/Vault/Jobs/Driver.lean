import Vault.Integrity.Jobs
import Vault.Lib.Steps
import Vault.Rebalance.Migration
import Vault.Repair.Running

/-! The three `run_job`s as executions of job rows. An execution reads its row, makes its checks, commits the row
as `RUNNING` with one attempt more, works, and writes how the work ended; it may be lost at any point, and a job
may be delivered again at any time. `RepairManager` locks the row until that commit, so its entry is one step;
the other two managers read without a lock. What the checks and the work meet in the database and on the nodes
is left open, and so is whether a handler sees the attempts of its own session or, after a rollback, those of the
row. -/

namespace Vault.Rebalance

open Vault.Common Vault.Metadata Vault.Storage Vault.Lib Vault.Lib.Script

/-- The part of `moveReplica` before the job row is written. -/
def relocate (cfg : Config) (job : RebalanceJob) (version : Version) (target : Option Replica) : Job Unit := do
  let verified ← targetVerified job version target
  if verified then pure () else copyToTarget job version
  removeSource cfg job version

def finishJob (job : RebalanceJob) : Job RebalanceResult := do
  save (markJob job.rebalanceId .succeeded none)
  pure (rebalanceResult (job.mark .succeeded none) true)

lemma moveReplica_eq (cfg : Config) (job : RebalanceJob) (version : Version) (target : Option Replica) :
    moveReplica cfg job version target = (relocate cfg job version target >>= fun _ => finishJob job) := by
  rw [moveReplica, relocate, Script.bind_assoc]
  congr
  funext verified
  cases verified with
  | true => rfl
  | false =>
    simp only [Bool.false_eq_true, if_false]
    rw [Script.bind_assoc]
    rfl

end Vault.Rebalance

namespace Vault.Jobs

open Vault.Common Vault.Metadata Vault.Storage Vault.Lib Vault.Lib.Script

inductive Manager
  | repair | rebalance | integrity
  deriving DecidableEq, Repr

structure JobKey where
  manager : Manager
  jobId : UUID
  deriving DecidableEq, Repr

/-- What the lifecycle of a job is about: the columns that decide at entry. -/
structure JobRow where
  status : JobStatus := .pending
  attempts : ℕ := 0
  deriving DecidableEq, Repr

structure Config where
  replicationFactor : ℕ
  maxAttempts : ℕ
  replicationFactor_pos : 1 ≤ replicationFactor
  maxAttempts_pos : 1 ≤ maxAttempts

def Config.rebalance (cfg : Config) : Rebalance.Config :=
  ⟨cfg.replicationFactor, cfg.maxAttempts, cfg.replicationFactor_pos, cfg.maxAttempts_pos⟩

def Config.integrity (cfg : Config) : Integrity.JobConfig :=
  ⟨cfg.replicationFactor, cfg.maxAttempts, cfg.replicationFactor_pos, cfg.maxAttempts_pos⟩

/-- `run_job` returns at once. -/
def Final (maxAttempts : ℕ) (row : JobRow) : Prop :=
  row.status = .succeeded ∨ row.status = .failed ∧ maxAttempts ≤ row.attempts

def repairKey (job : RepairJob) : JobKey := ⟨.repair, job.repairId⟩

def repairRow (job : RepairJob) : JobRow := ⟨job.status, job.attempts⟩

/-- A job of the two managers that read its row without a lock. -/
inductive Ticket
  | rebalance (job : RebalanceJob)
  | integrity (job : IntegrityJob)
  deriving DecidableEq, Repr

def Ticket.key : Ticket → JobKey
  | .rebalance job => ⟨.rebalance, job.rebalanceId⟩
  | .integrity job => ⟨.integrity, job.integrityId⟩

def Ticket.row : Ticket → JobRow
  | .rebalance job => ⟨job.status, job.attempts⟩
  | .integrity job => ⟨job.status, job.attempts⟩

inductive Work
  | repair (job : RepairJob) (version : Version) (replicaId : UUID)
  | rebalance (job : RebalanceJob) (version : Version) (target : Option Replica)
  | integrity (job : IntegrityJob)
  deriving DecidableEq, Repr

def Work.script (cfg : Config) : Work → Job Unit
  | .repair job version replicaId => Repair.rebuildTarget job version replicaId
  | .rebalance job version target => Rebalance.relocate cfg.rebalance job version target
  | .integrity job => do
    let _ ← Integrity.scanJob cfg.replicationFactor job
    pure ()

def Ticket.checks : Ticket → Job Work
  | .rebalance job => do
    let version ← Rebalance.findVersion job.versionId
    let _ ← Rebalance.findNode job.sourceNodeId
    let _ ← Rebalance.findNode job.targetNodeId
    let db ← query
    pure (.rebalance job.start version (db.replicaOn? job.versionId job.targetNodeId))
  | .integrity job => pure (.integrity job.start)

/-- `RebalanceManager.run_job` makes the checks, commits the start, works and writes the end. -/
lemma rebalance_startJob_eq (cfg : Config) (job : RebalanceJob) :
    Rebalance.startJob cfg.rebalance job = ((Ticket.rebalance job).checks >>= fun work =>
      save (fun db => db.amendRebalanceJob job.rebalanceId RebalanceJob.start) >>= fun _ =>
      handle (work.script cfg >>= fun _ => Rebalance.finishJob job.start)
        (Rebalance.recoverJob cfg.rebalance job.start)) := by
  simp only [Rebalance.startJob, Rebalance.moveReplica_eq, Ticket.checks, Script.bind_assoc]
  rfl

def contacts {β : Type} : Request β → Bool
  | .verify _ _ | .delete _ _ | .stream _ _ | .put _ _ => true
  | _ => false

inductive Stage
  | entering (seen : JobRow) (rest : Job Work)
  | starting (seen : JobRow) (work : Work)
  | working (attempts : ℕ) (rest : Job Unit)
  | succeeding
  | failing (attempts : ℕ)
  | ended

/-- The exceptions that a handler of `run_job` takes. -/
def Caught : Failure → Prop
  | .client _ => True
  | .vault _ => True
  | _ => False

/-- The steps of an execution that do not write its row, and whether they contact a storage node. The checks
only query. -/
inductive Stage.Next (cfg : Config) : Stage → Bool → Stage → Prop
  | check {seen : JobRow} {x y : Job Work} : Script.Step contacts x false y →
      Next cfg (.entering seen x) false (.entering seen y)
  | checked (seen : JobRow) (work : Work) : Next cfg (.entering seen (.done (.ok work))) false (.starting seen work)
  | refused (seen : JobRow) (e : Failure) : Next cfg (.entering seen (.done (.error e))) false .ended
  | work {n : ℕ} {x y : Job Unit} {c : Bool} : Script.Step contacts x c y → Next cfg (.working n x) c (.working n y)
  | worked (n : ℕ) : Next cfg (.working n (.done (.ok ()))) false .succeeding
  | caught (n : ℕ) (e : Failure) : Caught e → Next cfg (.working n (.done (.error e))) false (.failing n)
  | uncaught (n : ℕ) (e : Failure) : ¬Caught e → Next cfg (.working n (.done (.error e))) false .ended
  | lost (s : Stage) : Next cfg s false .ended

structure Execution where
  key : JobKey
  stage : Stage
  begun : Bool := false
  contacted : Bool := false

structure World where
  rows : JobKey → Option JobRow
  executions : List Execution

def World.empty : World := ⟨fun _ => none, []⟩

def World.write (w : World) (key : JobKey) (row : Option JobRow) : World :=
  { w with rows := Function.update w.rows key row }

def World.put (w : World) (i : ℕ) (e : Execution) : World := { w with executions := w.executions.set i e }

def World.spawn (w : World) (e : Execution) : World := { w with executions := w.executions ++ [e] }

/-- The execution that comes out of the entry of `RepairManager.run_job`. -/
def opened (cfg : Config) (key : JobKey) : Repair.Begun → Execution
  | .running e =>
    { key := key, begun := true,
      stage := .working e.job.attempts ((Work.repair e.job e.version e.replicaId).script cfg) }
  | _ => { key := key, stage := .ended }

/-- The row that the start writes. A status that is `RUNNING` already is no change, and only the columns that
changed are written. -/
def JobRow.begin (seen row : JobRow) : JobRow :=
  ⟨if seen.status = .running then row.status else .running, seen.attempts + 1⟩

def JobRow.fail (maxAttempts attempts : ℕ) (row : JobRow) : JobRow :=
  { row with status := if maxAttempts ≤ attempts then .failed else .pending }

inductive Move
  | create (key : JobKey)
  | deliver (key : JobKey)
  | enterRepair (repairId : UUID)
  | advance (i : ℕ)
  | start (i : ℕ)
  | succeed (i : ℕ)
  | fail (i : ℕ)
  deriving DecidableEq, Repr

inductive Step (cfg : Config) (w : World) : Move → World → Prop
  | create {key : JobKey} : w.rows key = none → Step cfg w (.create key) (w.write key (some {}))
  | deliver {ticket : Ticket} : w.rows ticket.key = some ticket.row → ¬Final cfg.maxAttempts ticket.row →
      Step cfg w (.deliver ticket.key) (w.spawn { key := ticket.key, stage := .entering ticket.row ticket.checks })
  | enterRepair {job : RepairJob} {db db' : Db} {b : Repair.Begun} : w.rows (repairKey job) = some (repairRow job) →
      db.repairJob? job.repairId = some job →
      (Repair.beginJob cfg.maxAttempts job.repairId).run db = .ok (b, db') →
      Step cfg w (.enterRepair job.repairId)
        ((w.write (repairKey job) ((db'.repairJob? job.repairId).map repairRow)).spawn (opened cfg (repairKey job) b))
  | advance {i : ℕ} {e : Execution} {c : Bool} {stage : Stage} : w.executions[i]? = some e →
      e.stage.Next cfg c stage →
      Step cfg w (.advance i) (w.put i { e with stage := stage, contacted := e.contacted || c })
  | start {i : ℕ} {e : Execution} {seen row : JobRow} {work : Work} : w.executions[i]? = some e →
      e.stage = .starting seen work → w.rows e.key = some row →
      Step cfg w (.start i) ((w.write e.key (some (seen.begin row))).put i
        { e with stage := .working (seen.attempts + 1) (work.script cfg), begun := true })
  | succeed {i : ℕ} {e : Execution} {row : JobRow} : w.executions[i]? = some e → e.stage = .succeeding →
      w.rows e.key = some row →
      Step cfg w (.succeed i) ((w.write e.key (some { row with status := .succeeded })).put i { e with stage := .ended })
  | fail {i n m : ℕ} {e : Execution} {row : JobRow} : w.executions[i]? = some e → e.stage = .failing n →
      w.rows e.key = some row → m = n ∨ m = row.attempts →
      Step cfg w (.fail i) ((w.write e.key (some (row.fail cfg.maxAttempts m))).put i { e with stage := .ended })

end Vault.Jobs
