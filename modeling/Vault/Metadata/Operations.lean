import Vault.Metadata.Nodes
import Vault.Metadata.Replicas
import Vault.Metadata.Versions

/-! Every public operation of `MetadataManager` with its arguments, one call after another on one
database. A call that raises is an event too. -/

namespace Vault.Metadata

open Vault.Common Vault.Lib.Program

inductive Op
  | getObject (name : Arg String)
  | getObjectOrRaise (name : Arg String)
  | createObject (name : Arg String)
  | createVersion (objectId : Arg UUID) (sizeBytes : Arg ℤ) (checksum : Arg String)
      (expectedCurrentVersion : Arg (Option ℤ))
  | commitVersion (now : Time) (versionId : Arg UUID) (expectedCurrentVersion : Arg (Option ℤ))
  | transitionObjectState (objectId : Arg UUID) (state : Arg ObjectState)
  | failVersion (versionId : Arg UUID)
  | transitionNodeState (nodeId : Arg String) (state : Arg NodeState)
  | createReplicas (versionId : Arg UUID) (nodeIds : List (Arg String))
  | setReplicaStates (replicaIds : List (Arg UUID)) (state : Arg ReplicaState)
  | createReplica (versionId : Arg UUID) (nodeId : Arg String)
  | setReplicaState (replicaId : Arg UUID) (state : Arg ReplicaState)
  | recordReplicaVerification (now : Time) (replicaId : Arg UUID) (checksum : Arg String)
      (sizeBytes : Arg ℤ)
  | markReplicaHealthy (now : Time) (replicaId : Arg UUID) (checksum : Arg String) (sizeBytes : Arg ℤ)
  | removeReplica (replicaId : Arg UUID)
  | registerNode (nodeId : Arg (Option String)) (address : Arg String) (capacityBytes : Arg ℤ)
      (status : Arg NodeState)
  | processNodeHeartbeat (nodeId : Arg String) (capacityBytes usedBytes : Arg (Option ℤ))
      (heartbeatAt : Arg Time)
  | updateNodeHeartbeat (now : Time) (nodeId : Arg String) (capacityBytes usedBytes : Arg (Option ℤ))
      (status : Arg (Option NodeState)) (heartbeatAt : Arg (Option Time))

inductive Output
  | object (o : Option Object)
  | version (v : Version)
  | replicas (rs : List Replica)
  | node (n : StorageNode)
  | heartbeat (n : StorageNode) (accepted : Bool)
  deriving DecidableEq, Repr

def answer {α : Type} (f : α → Output) (body : Tx α) : Prog Db Failure Output := do
  let a ← Prog.ofTx body
  pure (f a)

def Op.exec : Op → Prog Db Failure Output
  | .getObject name => answer .object (Metadata.getObject name)
  | .getObjectOrRaise name => answer (.object ∘ some) (Metadata.getObjectOrRaise name)
  | .createObject name => answer (.object ∘ some) (Metadata.createObject name)
  | .createVersion o s c e => answer .version (Metadata.createVersion o s c e)
  | .commitVersion now v e => answer .version (Metadata.commitVersion now v e)
  | .transitionObjectState o s => answer (.object ∘ some) (Metadata.transitionObjectState o s)
  | .failVersion v => answer .version (Metadata.failVersion v)
  | .transitionNodeState n s => answer .node (Metadata.transitionNodeState n s)
  | .createReplicas v ns => answer .replicas (Metadata.createReplicas v ns)
  | .setReplicaStates rs s => answer .replicas (Metadata.setReplicaStates rs s)
  | .createReplica v n => answer (fun r => .replicas [r]) (Metadata.createReplica v n)
  | .setReplicaState r s => answer (fun r => .replicas [r]) (Metadata.setReplicaState r s)
  | .recordReplicaVerification now r c s =>
    answer (fun r => .replicas [r]) (Metadata.recordReplicaVerification now r c s)
  | .markReplicaHealthy now r c s =>
    answer (fun r => .replicas [r]) (Metadata.markReplicaHealthy now r c s)
  | .removeReplica r => answer (fun r => .replicas [r]) (Metadata.removeReplica r)
  | .registerNode n a c s => answer .node (Metadata.registerNode n a c s)
  | .processNodeHeartbeat n c u t =>
    answer (fun p => .heartbeat p.1 p.2) (Metadata.processNodeHeartbeat n c u t)
  | .updateNodeHeartbeat now n c u s t => do
    let node ← Metadata.updateNodeHeartbeat now n c u s t
    pure (.node node)

structure Event where
  before : Db
  op : Op
  result : Except Failure Output
  after : Db

def Op.event (op : Op) (db : Db) : Event :=
  ⟨db, op, (op.exec.run db).1, (op.exec.run db).2⟩

def step (db : Db) (op : Op) : Db := (op.event db).after

def run (db : Db) (ops : List Op) : Db := ops.foldl step db

def history (db : Db) : List Op → List Event
  | [] => []
  | op :: ops => op.event db :: history (step db op) ops

lemma run_append (db : Db) (ops ops' : List Op) : run db (ops ++ ops') = run (run db ops) ops' :=
  List.foldl_append

lemma run_concat (db : Db) (ops : List Op) (op : Op) : run db (ops ++ [op]) = step (run db ops) op :=
  run_append db ops [op]

lemma history_append (db : Db) (ops ops' : List Op) :
    history db (ops ++ ops') = history db ops ++ history (run db ops) ops' := by
  induction ops generalizing db with
  | nil => rfl
  | cons op ops ih => exact congrArg (op.event db :: ·) (ih (step db op))

lemma history_concat (db : Db) (ops : List Op) (op : Op) :
    history db (ops ++ [op]) = history db ops ++ [op.event (run db ops)] :=
  history_append db ops [op]

/-- What holds at first and is preserved by each call holds after every sequence of calls. -/
lemma run_invariant {P : Db → Prop} {db : Db} (hi : P db) (hs : ∀ db op, P db → P (step db op))
    (ops : List Op) : P (run db ops) := by
  induction ops generalizing db with
  | nil => exact hi
  | cons op ops ih => exact ih (hs db op hi)

end Vault.Metadata
