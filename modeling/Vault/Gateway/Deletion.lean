import Vault.Metadata.Versions
import Vault.Storage.Store

/-! `GatewayService.delete_object` as a machine whose steps are its storage calls and its commits.
The transition to `DELETING` is written in the transaction that the first SELECT opened, so it is
only pending while the gathered calls run, in any order; one commit makes it durable together with
the deletion of the rows whose node answered. A last transaction enters `DELETED`. -/

namespace Vault.Gateway

open Vault.Common Vault.Metadata Vault.Storage Vault.Lib Vault.Lib.Transaction
open Vault.Lib.Transaction.Tx

structure Call where
  replicaId : UUID
  versionId : UUID
  nodeId : String
  known : Bool
  result : Option Bool := none
  deriving DecidableEq, Repr

inductive DeletionPhase
  | gather | finish
  deriving DecidableEq, Repr

structure Deletion where
  objectId : UUID
  pending : Bool
  calls : List Call
  phase : DeletionPhase := .gather
  deriving DecidableEq, Repr

def OwnedBy (db : Db) (objectId : UUID) (versionId : UUID) : Prop :=
  ∃ v ∈ db.version? versionId, v.objectId = objectId

instance (db : Db) (objectId versionId : UUID) : Decidable (OwnedBy db objectId versionId) :=
  inferInstanceAs (Decidable (∃ v ∈ db.version? versionId, _))

def rowsOf (db : Db) (objectId : UUID) : List Replica :=
  db.replicas.filter (fun r => OwnedBy db objectId r.versionId)

def callFor (db : Db) (r : Replica) : Call :=
  { replicaId := r.replicaId, versionId := r.versionId, nodeId := r.nodeId,
    known := (db.node? r.nodeId).isSome }

def findObject (db : Db) (name : Arg String) : Except Failure Object :=
  match normalizeObjectName name with
  | .error e => .error e
  | .ok normalized =>
    match db.objects.find? (fun o => o.name = normalized) with
    | some obj => .ok obj
    | none => .error (.vault (objectNotFound normalized))

def beginDelete (name : Arg String) (db : Db) : Except Failure (Option Deletion) :=
  match findObject db name with
  | .error e => .error e
  | .ok obj =>
    if obj.state = .deleted then .ok none
    else .ok (some
      { objectId := obj.objectId, pending := obj.state = .active,
        calls := (rowsOf db obj.objectId).map (callFor db) })

def Call.succeeded (c : Call) : Bool := c.result == some true

def Call.finish (ok : Bool) (c : Call) : Call := { c with result := some ok }

def answered : Except ClientError Unit → Bool
  | .ok _ => true
  | .error _ => false

inductive DeleteAction
  | call (k : ℕ) (fault : Option Fault)
  | commit
  | enterDeleted
  deriving DecidableEq, Repr

def removeRows (ids : List UUID) (db : Db) : Db :=
  { db with replicas := db.replicas.filter (fun r => r.replicaId ∉ ids) }

def Deletion.flush (d : Deletion) (db : Db) : Db :=
  let db := removeRows ((d.calls.filter Call.succeeded).map Call.replicaId) db
  if d.pending then db.amendObject d.objectId (Object.enter .deleting) else db

def Deletion.call (k : ℕ) (fault : Option Fault) (d : Deletion) (s : Store) : Deletion × Store :=
  match d.calls[k]? with
  | none => (d, s)
  | some c =>
    if c.result ≠ none then (d, s)
    else if c.known then
      let (answer, s) := deleteObject fault c.nodeId c.versionId s
      ({ d with calls := d.calls.set k (c.finish (answered answer)) }, s)
    else ({ d with calls := d.calls.set k (c.finish true) }, s)

def Deletion.step (refresh : Bool) (d : Deletion) (db : Db) (s : Store) :
    DeleteAction → Option Deletion × Db × Store
  | .call k fault =>
    if d.phase = .gather then
      let (d, s) := d.call k fault s
      (some d, db, s)
    else (some d, db, s)
  | .commit =>
    if d.phase = .gather ∧ ∀ c ∈ d.calls, c.result ≠ none then
      (if ∀ c ∈ d.calls, c.succeeded then some { d with phase := .finish } else none, d.flush db, s)
    else (some d, db, s)
  | .enterDeleted =>
    if d.phase = .finish then
      let seen (o : Object) : ObjectState := if refresh then o.state else .deleting
      (none, (atomic (enterObjectState seen d.objectId .deleted) db).2, s)
    else (some d, db, s)

end Vault.Gateway
