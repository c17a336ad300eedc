import Vault.Gateway.DeletionSteps
import Vault.Repair.Advance
import Vault.Repair.Scheduling

/-! Deletions and repairs over one database and one set of storage nodes: executions of both kinds
start, advance and stop in any order, and repairs are scheduled at any time. `answered` collects
the nodes that confirmed a deletion, with the version they were asked to delete. -/

namespace Vault.Gateway

open Vault.Common Vault.Metadata Vault.Storage Vault.Repair Vault.Lib Vault.Lib.Transaction

structure Shared where
  db : Db
  store : Store
  repairs : ℕ → Option Execution
  deletes : ℕ → Option Deletion
  answered : List (String × UUID)

inductive Move
  | startRepair (k : ℕ) (repairId : UUID)
  | repair (k : ℕ) (fault : Option Fault) (received : Blob) (now : Time)
  | stopRepair (k : ℕ)
  | startDelete (k : ℕ) (name : Arg String)
  | delete (k : ℕ) (a : DeleteAction)
  | stopDelete (k : ℕ)
  | schedule (versionId : UUID) (replicationFactor : ℤ) (reason : Arg String)
      (preferred : Option Replica)
  | createJob (versionId : UUID) (sourceNodeId targetNodeId : String) (reason : Arg String)

def confirmed (d : Option Deletion) : List (String × UUID) :=
  match d with
  | none => []
  | some d => (d.calls.filter (fun c => c.succeeded && c.known)).map (fun c => (c.nodeId, c.versionId))

def startDeletion (name : Arg String) (db : Db) : Option Deletion :=
  match beginDelete name db with
  | .ok d => d
  | .error _ => none

def Shared.step (cfg : Config) (w : Shared) : Move → Shared
  | .startRepair k repairId =>
    match w.repairs k with
    | some _ => w
    | none =>
      let (e, db) := startExecution cfg.maxAttempts repairId w.db
      { w with db := db, repairs := Function.update w.repairs k e }
  | .repair k fault received now =>
    match w.repairs k with
    | none => w
    | some e =>
      let (e, db, store) := e.step cfg fault received now w.db w.store
      { w with db := db, store := store, repairs := Function.update w.repairs k e }
  | .stopRepair k => { w with repairs := Function.update w.repairs k none }
  | .startDelete k name =>
    match w.deletes k with
    | some _ => w
    | none => { w with deletes := Function.update w.deletes k (startDeletion name w.db) }
  | .delete k a =>
    match w.deletes k with
    | none => w
    | some d =>
      let (d, db, store) := d.step cfg.refresh w.db w.store a
      { w with
        db := db
        store := store
        deletes := Function.update w.deletes k d
        answered := w.answered ++ confirmed d }
  | .stopDelete k => { w with deletes := Function.update w.deletes k none }
  | .schedule versionId rf reason preferred =>
    { w with db := (atomic (scheduleForVersion versionId rf reason preferred) w.db).2 }
  | .createJob versionId source target reason =>
    { w with db := (atomic (Repair.createJob versionId source target reason) w.db).2 }

def Shared.run (cfg : Config) (w : Shared) (moves : List Move) : Shared := moves.foldl (Shared.step cfg) w

def Gone (objectId : UUID) (w : Shared) : Prop :=
  (∃ o ∈ w.db.objects, o.objectId = objectId ∧ o.state = .deleted) →
    rowsOf w.db objectId = [] ∧
      ∀ p ∈ w.answered, OwnedBy w.db objectId p.2 → w.store p.1 p.2 = none

/-- No repair of the object starts while it is being deleted, and no deletion of it starts while
one of its versions is being repaired. -/
def Separate (objectId : UUID) (w : Shared) : Move → Prop
  | .startRepair _ repairId => ∀ job, w.db.repairJob? repairId = some job →
      OwnedBy w.db objectId job.versionId → ∀ j d, w.deletes j = some d → d.objectId ≠ objectId
  | .startDelete _ name => ∀ obj, findObject w.db name = .ok obj → obj.objectId = objectId →
      ∀ j e, w.repairs j = some e → ¬OwnedBy w.db objectId e.job.versionId
  | _ => True

def SeparateRun (objectId : UUID) (cfg : Config) : Shared → List Move → Prop
  | _, [] => True
  | w, m :: moves => Separate objectId w m ∧ SeparateRun objectId cfg (w.step cfg m) moves

structure Consistent (db : Db) (d : Deletion) : Prop where
  owned : ∀ c ∈ d.calls, OwnedBy db d.objectId c.versionId
  known : ∀ c ∈ d.calls, c.known = (db.node? c.nodeId).isSome
  fresh : ∀ c ∈ d.calls, c.replicaId.n < db.nextId
  matched : ∀ c ∈ d.calls, ∀ r ∈ db.replicas, r.replicaId = c.replicaId →
    r.place = (c.versionId, c.nodeId)

structure Covering (db : Db) (store : Store) (d : Deletion) : Prop where
  covered : d.phase = .gather → ∀ r ∈ rowsOf db d.objectId, ∃ c ∈ d.calls, c.replicaId = r.replicaId
  acked : ∀ c ∈ d.calls, c.succeeded = true → c.known = true → store c.nodeId c.versionId = none
  finished : d.phase = .finish → rowsOf db d.objectId = []

def Placed (db : Db) (e : Execution) : Prop := ∃ r ∈ db.replicas, r.place = e.place

/-- The invariant of the runs that keep repairs and deletions of the object apart. With `total`
every stored blob of the object is accounted for by a row, otherwise those of the nodes that
answered are. -/
structure RaceInv (objectId : UUID) (total : Prop) (w : Shared) : Prop where
  wellFormed : w.db.WellFormed
  versionIds : ∀ k e, w.repairs k = some e → e.version.versionId = e.job.versionId
  placed : ∀ k e, w.repairs k = some e → OwnedBy w.db objectId e.job.versionId → Placed w.db e
  consistent : ∀ k d, w.deletes k = some d → Consistent w.db d
  covering : ∀ k d, w.deletes k = some d → d.objectId = objectId → Covering w.db w.store d
  separate : ∀ j d, w.deletes j = some d → d.objectId = objectId →
    ∀ k e, w.repairs k = some e → ¬OwnedBy w.db objectId e.job.versionId
  accounted : ∀ n i, OwnedBy w.db objectId i → (w.db.node? n).isSome → total ∨ (n, i) ∈ w.answered →
    w.store n i ≠ none → ∃ r ∈ w.db.replicas, r.place = (i, n)
  answeredKnown : ∀ p ∈ w.answered, (w.db.node? p.1).isSome
  final : (∃ o ∈ w.db.objects, o.objectId = objectId ∧ o.state = .deleted) →
    rowsOf w.db objectId = [] ∧ ∀ k e, w.repairs k = some e → ¬OwnedBy w.db objectId e.job.versionId

end Vault.Gateway
