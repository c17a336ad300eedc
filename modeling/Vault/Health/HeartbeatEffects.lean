import Vault.Health.Reconciled

/-! What a heartbeat does. One that is newer than the last of its node is accepted: the row of the node takes
its figures, and a `JOINING`, `SUSPECT` or `UNAVAILABLE` node moves along one edge. Any other heartbeat
changes nothing. -/

namespace Vault.Health

open Vault.Common Vault.Metadata Vault.Storage Vault.Lib Vault.Lib.Script Vault.Lib.Transaction
open Vault.Lib.Transaction.Tx

variable {ρ : Type}

/-- What the node registry promises: identifiers are distinct, stripped and not empty. -/
structure Registered (db : Db) : Prop where
  keys : db.NodeKeys
  named : ∀ n ∈ db.nodes, n.nodeId ≠ ""
  replicaIds : (db.replicas.map Replica.replicaId).Nodup

lemma transitionNodeState_edge {db : Db} (h : Registered db) {node : StorageNode} {state : NodeState}
    (hn : node ∈ db.nodes) (hne : state ≠ node.status) (he : state ∈ nodeStateTransitions node.status) :
    (transitionNodeState (.value node.nodeId) (.value state)).run db =
      .ok (node.enter state, db.amendNode node.nodeId (StorageNode.enter state)) := by
  have hv : validateNodeId (.value node.nodeId) = .ok node.nodeId := by
    simp [validateNodeId, validateNonEmpty, h.keys.stripped node hn, h.named node hn]
  have hrow : db.node? node.nodeId = some node := Table.lookup_of_mem h.keys.distinct hn
  simp [transitionNodeState, hv, hrow, validateTyped, hne, he]

section Heartbeats

variable {payload : HeartbeatPayload} {db : Db}

/-- The heartbeat is newer than the last one of a node that takes heartbeats. -/
def Accepts (db : Db) (payload : HeartbeatPayload) : Prop :=
  ∃ node ∈ db.node? payload.nodeId, node.status ≠ .removed ∧ ∀ last ∈ node.lastHeartbeatAt, last < payload.timestamp

instance (db : Db) (payload : HeartbeatPayload) : Decidable (Accepts db payload) :=
  inferInstanceAs (Decidable (∃ node ∈ _, _))

/-- The state in which an accepted heartbeat leaves the node. -/
def beatenState : NodeState → NodeState
  | .joining | .suspect => .healthy
  | .unavailable => .recovering
  | state => state

def beatenNode (payload : HeartbeatPayload) (node : StorageNode) : StorageNode :=
  (payload.beat node).enter (beatenState node.status)

/-- An accepted heartbeat changes the row of its node. -/
structure Beaten (payload : HeartbeatPayload) (db view : Db) : Prop where
  nodes : view.nodes = Table.amend StorageNode.nodeId payload.nodeId (beatenNode payload) db.nodes
  replicas : view.replicas = db.replicas
  versions : view.versions = db.versions
  objects : view.objects = db.objects

lemma processPayload_accepts {node : StorageNode} (hn : db.node? payload.nodeId = some node)
    (hs : node.status ≠ .removed) (hnew : ∀ last ∈ node.lastHeartbeatAt, last < payload.timestamp) :
    (processPayload payload).run db = .ok ((payload.beat node, true), db.amendNode payload.nodeId payload.beat) := by
  have hid : validateNodeId (.value payload.nodeId) = .ok payload.nodeId := by
    simp [validateNodeId, validateNonEmpty, payload.nodeId_stripped, payload.nodeId_ne]
  have hcapacity : validateOptionalNonNegative "capacity_bytes" (.value (some (payload.capacityBytes : ℤ))) =
      .ok (some payload.capacityBytes) := rfl
  have hused : validateOptionalNonNegative "used_bytes" (.value (some (payload.usedBytes : ℤ))) =
      .ok (some payload.usedBytes) := rfl
  simp [processPayload, processNodeHeartbeat, hid, hcapacity, hused, validateTyped, hn, hs, payload.used_le]
  exact ⟨by simpa using hnew, rfl, rfl⟩

lemma processPayload_stale {r : StorageNode × Bool} {db' : Db} (h : (processPayload payload).run db = .ok (r, db'))
    (hno : ¬Accepts db payload) : r.2 = false ∧ db' = db := by
  have hid : validateNodeId (.value payload.nodeId) = .ok payload.nodeId := by
    simp [validateNodeId, validateNonEmpty, payload.nodeId_stripped, payload.nodeId_ne]
  simp [processPayload, processNodeHeartbeat, hid, validateTyped] at h
  obtain ⟨capacity, -, used, -, node, hn, hs, h⟩ := h
  rcases h with ⟨-, rfl, rfl⟩ | ⟨hnew, -⟩
  · exact ⟨rfl, rfl⟩
  · exact absurd ⟨node, hn, hs, by simpa using hnew⟩ hno

lemma beaten_of_amend {node : StorageNode} (h : Registered db) (hn : node ∈ db.nodes)
    (hid : node.nodeId = payload.nodeId) {view : Db}
    (hview : view = (db.amendNode payload.nodeId payload.beat).amendNode payload.nodeId
      (StorageNode.enter (beatenState node.status))) : Beaten payload db view := by
  subst hview
  refine ⟨?_, rfl, rfl, rfl⟩
  simp only [Db.amendNode, Table.amend, List.map_map]
  refine List.map_congr_left fun m hm => ?_
  by_cases hmid : m.nodeId = payload.nodeId
  · obtain rfl := Table.eq_of_key h.keys.distinct hm hn (hmid.trans hid.symm)
    simp only [Function.comp_apply, if_pos hmid]
    exact if_pos hmid
  · simp only [Function.comp_apply, if_neg hmid]

/-- Keys and names of the rows stay. -/
lemma Registered.of_same {view : Db} (h : Registered db)
    (hnodes : view.nodes.map StorageNode.nodeId = db.nodes.map StorageNode.nodeId)
    (hreplicas : view.replicas.map Replica.replicaId = db.replicas.map Replica.replicaId) : Registered view := by
  have hmem : ∀ n ∈ view.nodes, ∃ m ∈ db.nodes, n.nodeId = m.nodeId := by
    intro n hn
    have hid : n.nodeId ∈ db.nodes.map StorageNode.nodeId := hnodes ▸ List.mem_map_of_mem hn
    obtain ⟨m, hm, he⟩ := List.mem_map.mp hid
    exact ⟨m, hm, he.symm⟩
  refine ⟨⟨hnodes ▸ h.keys.distinct, fun n hn => ?_⟩, fun n hn => ?_, hreplicas ▸ h.replicaIds⟩
  · obtain ⟨m, hm, he⟩ := hmem n hn
    rw [he]
    exact h.keys.stripped m hm
  · obtain ⟨m, hm, he⟩ := hmem n hn
    rw [he]
    exact h.named m hm

lemma Registered.amendNode (h : Registered db) (i : String) {f : StorageNode → StorageNode}
    (hf : ∀ n, (f n).nodeId = n.nodeId) : Registered (db.amendNode i f) :=
  h.of_same (Table.map_amend StorageNode.nodeId hf _) rfl

/-- An accepted heartbeat and its edge, if the state has one. -/
lemma wp_advanceNode_exact {node : StorageNode} (hid : node.nodeId = payload.nodeId) (hs : node.status ≠ .removed)
    {p : Watch ρ} (h : Registered p.session.view) (hn : payload.beat node ∈ p.session.view.nodes) :
    wp any (Post.seq (fun advanced q => advanced = beatenNode payload node ∧ q.session.view =
      p.session.view.amendNode payload.nodeId (StorageNode.enter (beatenState node.status))) fun _ _ => False)
      (advanceNode (payload.beat node)) p := by
  have hedge : ∀ state, beatenState node.status = state → state ≠ node.status →
      state ∈ nodeStateTransitions node.status →
      wp any (Post.seq (fun advanced q => advanced = beatenNode payload node ∧ q.session.view =
        p.session.view.amendNode payload.nodeId (StorageNode.enter (beatenState node.status))) fun _ _ => False)
        (transaction (transitionNodeState (.value (payload.beat node).nodeId) (.value state)) : Job StorageNode) p := by
    rintro _ rfl hne he
    refine wp_transaction_ok (transitionNodeState_edge h hn hne he) fun s hs => ⟨rfl, ?_⟩
    rw [← hid]
    exact hs
  have hsame : beatenState node.status = node.status →
      wp any (Post.seq (fun advanced q => advanced = beatenNode payload node ∧ q.session.view =
        p.session.view.amendNode payload.nodeId (StorageNode.enter (beatenState node.status))) fun _ _ => False)
        (pure (payload.beat node) : Job StorageNode) p := by
    intro he
    have hfixed : StorageNode.enter (beatenState node.status) (payload.beat node) = payload.beat node := by
      rw [he]
      rfl
    have hkey : (payload.beat node).nodeId = payload.nodeId := hid
    refine wp_pure.mpr ⟨hfixed.symm, ?_⟩
    rw [← hkey, Db.amendNode, Table.amend_fixed h.keys.distinct hn hfixed]
  have hstatus : (payload.beat node).status = node.status := rfl
  unfold advanceNode
  rw [hstatus]
  clear hstatus
  generalize hstate : beatenNode payload node = row at hedge hsame ⊢
  clear hstate
  generalize node.status = state at hedge hsame hs ⊢
  cases state with
  | joining => exact hedge .healthy rfl (by decide) (by decide)
  | suspect => exact hedge .healthy rfl (by decide) (by decide)
  | unavailable => exact hedge .recovering rfl (by decide) (by decide)
  | removed => exact absurd rfl hs
  | healthy => exact hsame rfl
  | draining => exact hsame rfl
  | recovering => exact hsame rfl

lemma Beaten.registered {view : Db} (hb : Beaten payload db view) (h : Registered db) : Registered view :=
  h.of_same (by rw [hb.nodes, Table.map_amend (f := beatenNode payload) StorageNode.nodeId fun _ => rfl])
    (by rw [hb.replicas])

/-- What a heartbeat comes to. -/
def Ingested (payload : HeartbeatPayload) (db : Db) (r : Except Failure HeartbeatResult) (view : Db) : Prop :=
  (Accepts db payload ∧ (∃ result, r = .ok result ∧ result.accepted = true) ∧ Beaten payload db view) ∨
    (¬Accepts db payload ∧ (∀ result, r = .ok result → result.accepted = false) ∧ view = db)

theorem wp_ingest_exact (payload : HeartbeatPayload) {p : Watch ρ} (h : Registered p.session.view) :
    wp any (fun r q => Ingested payload p.session.view r q.session.view) (ingest payload) p := by
  by_cases haccepts : Accepts p.session.view payload
  · obtain ⟨node, hn, hs, hnew⟩ := haccepts
    have hid : node.nodeId = payload.nodeId := Table.lookup_key hn
    refine wp_bind.mpr (wp_transaction_ok (processPayload_accepts hn hs hnew) fun s hview => ?_)
    have hview : (p.move s).session.view = p.session.view.amendNode payload.nodeId payload.beat := hview
    have hreg : Registered (p.move s).session.view := by
      rw [hview]
      exact h.amendNode _ fun _ => rfl
    have hrow : payload.beat node ∈ (p.move s).session.view.nodes := by
      rw [hview]
      exact Table.mem_amend.mpr ⟨node, Table.lookup_mem hn, if_pos hid⟩
    dsimp only [Post.seq_ok]
    rw [if_pos rfl]
    refine wp_bind.mpr (wp_mono ?_ (wp_advanceNode_exact hid hs hreg hrow))
    intro r q hq
    cases r with
    | error e => exact hq.elim
    | ok advanced =>
      obtain ⟨-, hq⟩ := hq
      rw [hview] at hq
      exact wp_pure.mpr (Or.inl ⟨⟨node, hn, hs, hnew⟩, ⟨_, rfl, rfl⟩, beaten_of_amend h (Table.lookup_mem hn) hid hq⟩)
  · refine wp_bind.mpr (wp_transaction_view (fun a s hrun => ?_) fun e s he hview => ?_)
    · obtain ⟨hold, hview⟩ := processPayload_stale hrun haccepts
      obtain ⟨node, accepted⟩ := a
      obtain rfl : accepted = false := hold
      exact wp_pure.mpr (Or.inr ⟨haccepts, by rintro result ⟨⟩; rfl, hview⟩)
    · exact Or.inr ⟨haccepts, by simp, hview⟩

end Heartbeats


end Vault.Health
