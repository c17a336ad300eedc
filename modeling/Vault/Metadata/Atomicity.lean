import Vault.Lib.Session
import Vault.Metadata.WellFormed

/-! Every operation of `MetadataManager` in a session: `_transaction` begins and commits when no transaction
is open and is a savepoint when the caller has one. An operation that raises leaves the session as it was,
except the one that opens two transactions. -/

namespace Vault.Metadata

open Vault.Common Vault.Lib Vault.Lib.Transaction Vault.Lib.Transaction.Tx Vault.Lib.Program

/-- `heartbeat_at or datetime.now(timezone.utc)`: whatever is false counts as none. -/
def heartbeatTime (now : Time) : Arg (Option Time) → Arg Time
  | .value (some t) => .value t
  | .value none => .value now
  | .illTyped => .illTyped

section Calls

def reply {α : Type} (f : α → Output) (body : Tx α) (s : Session Db) : Except Failure Output × Session Db :=
  let (result, s) := s.begin body
  (result.map f, s)

def heartbeatCall (now : Time) (nodeId : Arg String) (capacityBytes usedBytes : Arg (Option ℤ))
    (status : Arg (Option NodeState)) (heartbeatAt : Arg (Option Time)) (s : Session Db) :
    Except Failure StorageNode × Session Db :=
  match s.begin (processNodeHeartbeat nodeId capacityBytes usedBytes (heartbeatTime now heartbeatAt)) with
  | (.error e, s) => (.error e, s)
  | (.ok (node, accepted), s) =>
    match status with
    | .value none => (.ok node, s)
    | .illTyped => (.error (.value "status must be a NodeState"), s)
    | .value (some state) =>
      if accepted = true ∧ node.status ≠ state then
        s.begin (transitionNodeState (.value node.nodeId) (.value state))
      else (.ok node, s)

/-- The call of the operation on a session. -/
def Op.call : Op → Session Db → Except Failure Output × Session Db
  | .getObject name => reply .object (Metadata.getObject name)
  | .getObjectOrRaise name => reply (.object ∘ some) (Metadata.getObjectOrRaise name)
  | .createObject name => reply (.object ∘ some) (Metadata.createObject name)
  | .createVersion o s c e => reply .version (Metadata.createVersion o s c e)
  | .commitVersion now v e => reply .version (Metadata.commitVersion now v e)
  | .transitionObjectState o s => reply (.object ∘ some) (Metadata.transitionObjectState o s)
  | .failVersion v => reply .version (Metadata.failVersion v)
  | .transitionNodeState n s => reply .node (Metadata.transitionNodeState n s)
  | .createReplicas v ns => reply .replicas (Metadata.createReplicas v ns)
  | .setReplicaStates rs s => reply .replicas (Metadata.setReplicaStates rs s)
  | .createReplica v n => reply (fun r => .replicas [r]) (Metadata.createReplica v n)
  | .setReplicaState r s => reply (fun r => .replicas [r]) (Metadata.setReplicaState r s)
  | .recordReplicaVerification now r c s =>
    reply (fun r => .replicas [r]) (Metadata.recordReplicaVerification now r c s)
  | .markReplicaHealthy now r c s =>
    reply (fun r => .replicas [r]) (Metadata.markReplicaHealthy now r c s)
  | .removeReplica r => reply (fun r => .replicas [r]) (Metadata.removeReplica r)
  | .registerNode n a c s => reply .node (Metadata.registerNode n a c s)
  | .processNodeHeartbeat n c u t =>
    reply (fun p => .heartbeat p.1 p.2) (Metadata.processNodeHeartbeat n c u t)
  | .updateNodeHeartbeat now n c u st t => fun s =>
    let (result, s) := heartbeatCall now n c u st t s
    (result.map .node, s)

end Calls

/-- The arguments of a heartbeat are well formed and name a node that may send one. -/
structure Recorded (db : Db) (nodeId : Arg String) (capacityBytes usedBytes : Arg (Option ℤ)) (heartbeatAt : Arg Time)
    (id : String) (capacity used : Option ℕ) (timestamp : Time) (node : StorageNode) : Prop where
  nodeId : validateNodeId nodeId = .ok id
  capacity : validateOptionalNonNegative "capacity_bytes" capacityBytes = .ok capacity
  used : validateOptionalNonNegative "used_bytes" usedBytes = .ok used
  time : heartbeatAt = .value timestamp
  row : db.node? id = some node
  present : node.status ≠ .removed

lemma Recorded.accepted {db : Db} {n : Arg String} {c u : Arg (Option ℤ)} {t : Arg Time} {id : String}
    {capacity used : Option ℕ} {timestamp : Time} {node : StorageNode}
    (h : Recorded db n c u t id capacity used timestamp node)
    (hnew : ∀ last ∈ node.lastHeartbeatAt, last < timestamp)
    (hle : used.getD node.usedBytes ≤ capacity.getD node.capacityBytes) :
    (processNodeHeartbeat n c u t).run db =
      .ok ((node.beat (capacity.getD node.capacityBytes) (used.getD node.usedBytes) timestamp, true),
        db.amendNode id
          (StorageNode.beat (capacity.getD node.capacityBytes) (used.getD node.usedBytes) timestamp)) := by
  simpa [processNodeHeartbeat, h.nodeId, h.capacity, h.used, h.time, h.row, h.present, validateTyped, hle]
    using hnew

/-- The session is between two calls, or inside the caller's transaction. -/
def Ready (s : Session Db) : Prop := s.inTransaction = false → s = Session.fresh s.view

lemma Recorded.unique {db : Db} {n : Arg String} {c u : Arg (Option ℤ)} {t : Arg Time} {id id' : String}
    {capacity capacity' used used' : Option ℕ} {timestamp timestamp' : Time} {node node' : StorageNode}
    (h : Recorded db n c u t id capacity used timestamp node)
    (h' : Recorded db n c u t id' capacity' used' timestamp' node') : node = node' ∧ timestamp = timestamp' := by
  obtain rfl : id = id' := Except.ok.inj (h.nodeId.symm.trans h'.nodeId)
  obtain rfl : node = node' := Option.some.inj (h.row.symm.trans h'.row)
  exact ⟨rfl, Arg.value.inj (h.time.symm.trans h'.time)⟩

lemma begin_fresh {α : Type} (body : Tx α) (db : Db) :
    (Session.fresh db).begin body = ((atomic body db).1, Session.fresh (atomic body db).2) := rfl

lemma heartbeatCall_fresh (now : Time) (n : Arg String) (c u : Arg (Option ℤ)) (st : Arg (Option NodeState))
    (t : Arg (Option Time)) (db : Db) :
    heartbeatCall now n c u st t (Session.fresh db) =
      (((updateNodeHeartbeat now n c u st t).run db).1,
        Session.fresh ((updateNodeHeartbeat now n c u st t).run db).2) := by
  have htime : updateNodeHeartbeat now n c u st t =
      (Prog.ofTx (processNodeHeartbeat n c u (heartbeatTime now t)) >>= _) := rfl
  rw [htime, heartbeatCall, begin_fresh, Prog.run_bind]
  rcases Prog.ofTx_cases (processNodeHeartbeat n c u (heartbeatTime now t)) db with ⟨⟨node, accepted⟩, db', hb, hr⟩ | ⟨e, hb, hr⟩
  · rw [hr, atomic_ok hb]
    cases st with
    | illTyped => rfl
    | value st =>
      cases st with
      | none => rfl
      | some state =>
        by_cases hmove : accepted = true ∧ node.status ≠ state
        · simp only [if_pos hmove, begin_fresh]
          rfl
        · simp only [if_neg hmove]
          rfl
  · have ha : atomic (processNodeHeartbeat n c u (heartbeatTime now t)) db = (.error e, db) := hr
    rw [hr, ha]

/-- The call on a session between two calls is the operation on the database. -/
theorem call_fresh (op : Op) (db : Db) :
    op.call (Session.fresh db) = ((op.exec.run db).1, Session.fresh (op.exec.run db).2) := by
  have hone : ∀ {α : Type} (f : α → Output) (body : Tx α), reply f body (Session.fresh db) =
      (((answer f body).run db).1, Session.fresh ((answer f body).run db).2) := by
    intro α f body
    rcases atomic_cases body db with ⟨a, t, hb, ha⟩ | ⟨e, hb, ha⟩
    · simp only [reply, begin_fresh, ha, answer_ok hb]
      rfl
    · have hrun : (Prog.ofTx body).run db = (.error e, db) := ha
      simp only [reply, begin_fresh, ha, answer, Prog.run_bind, hrun]
      rfl
  cases op with
  | updateNodeHeartbeat now n c u st t =>
    have hcall := heartbeatCall_fresh now n c u st t db
    have hreply : (Op.updateNodeHeartbeat now n c u st t).call (Session.fresh db) =
        ((heartbeatCall now n c u st t (Session.fresh db)).1.map .node,
          (heartbeatCall now n c u st t (Session.fresh db)).2) := rfl
    rw [hreply, hcall, Op.exec, Prog.run_bind]
    cases hr : (updateNodeHeartbeat now n c u st t).run db with
    | mk result db' => cases result <;> rfl
  | _ => exact hone _ _

end Vault.Metadata
