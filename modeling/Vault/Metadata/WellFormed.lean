import Vault.Metadata.ReplicaEvidence

/-! What the schema promises of the replica and node tables. -/

namespace Vault.Metadata

open Vault.Common Vault.Lib

structure Db.WellFormed (db : Db) : Prop where
  replicaIds : (db.replicas.map Replica.replicaId).Nodup
  freshReplica : ∀ r ∈ db.replicas, r.replicaId.n < db.nextId
  places : (db.replicas.map Replica.place).Nodup
  nodeIds : ∀ n ∈ db.nodes, strip n.nodeId = n.nodeId

lemma Db.WellFormed.frame {db db' : Db} (h : db.WellFormed) (hr : db'.replicas = db.replicas)
    (hn : db'.nodes = db.nodes) (hi : db.nextId ≤ db'.nextId) : db'.WellFormed where
  replicaIds := hr ▸ h.replicaIds
  freshReplica r hm := (h.freshReplica r (hr ▸ hm)).trans_le hi
  places := hr ▸ h.places
  nodeIds := hn ▸ h.nodeIds

lemma Db.WellFormed.amend {db : Db} (h : db.WellFormed) (i : UUID) {f : Replica → Replica}
    (hid : ∀ r, (f r).replicaId = r.replicaId) (hpl : ∀ r, (f r).place = r.place) :
    (db.amendReplica i f).WellFormed where
  replicaIds := Table.nodup_amend (f := f) hid h.replicaIds
  freshReplica := fresh_amend (f := f) hid h.freshReplica
  places := Table.nodup_amend (f := f) hpl h.places
  nodeIds := h.nodeIds

lemma Db.WellFormed.insert {db : Db} (h : db.WellFormed) {i : UUID} {n : String}
    (hfree : db.replicaOn? i n = none) : (insertReplica i n db).WellFormed where
  replicaIds := by
    apply Table.nodup_append_fresh h.replicaIds
    intro r hr he
    exact absurd (h.freshReplica r hr) (by simp [he, Db.newUuid])
  freshReplica r hr := by
    simp only [insertReplica, List.mem_append, List.mem_singleton] at hr ⊢
    rcases hr with hr | rfl
    · exact (h.freshReplica r hr).trans (Nat.lt_succ_self _)
    · exact Nat.lt_succ_self _
  places := by
    apply Table.nodup_append_fresh h.places
    exact fun r hr => Table.lookup_eq_none.mp hfree r hr
  nodeIds := h.nodeIds

lemma Db.WellFormed.eq_of_place {db : Db} (h : db.WellFormed) {r s : Replica} (hr : r ∈ db.replicas)
    (hs : s ∈ db.replicas) (he : r.place = s.place) : r = s :=
  Table.eq_of_key h.places hr hs he

lemma Db.WellFormed.eq_of_id {db : Db} (h : db.WellFormed) {r s : Replica} (hr : r ∈ db.replicas)
    (hs : s ∈ db.replicas) (he : r.replicaId = s.replicaId) : r = s :=
  Table.eq_of_key h.replicaIds hr hs he

lemma mem_amendReplica {db : Db} (h : db.WellFormed) {r₀ : Replica} (hr₀ : r₀ ∈ db.replicas)
    {f : Replica → Replica} (r : Replica) :
    r ∈ (db.amendReplica r₀.replicaId f).replicas ↔
      r ∈ db.replicas ∧ r.place ≠ r₀.place ∨ r = f r₀ := by
  simp only [Db.amendReplica, Table.mem_amend]
  constructor
  · rintro ⟨s, hs, rfl⟩
    split_ifs with he
    · rw [h.eq_of_id hs hr₀ he]
      exact Or.inr rfl
    · exact Or.inl ⟨hs, fun hp => he (congrArg Replica.replicaId (h.eq_of_place hs hr₀ hp))⟩
  · rintro (⟨hr, hp⟩ | rfl)
    · refine ⟨r, hr, if_neg ?_⟩
      intro he
      exact hp (congrArg Replica.place (h.eq_of_id hr hr₀ he))
    · exact ⟨r₀, hr₀, if_pos rfl⟩

structure Db.NodeKeys (db : Db) : Prop where
  distinct : (db.nodes.map StorageNode.nodeId).Nodup
  stripped : ∀ n ∈ db.nodes, strip n.nodeId = n.nodeId

lemma Db.NodeKeys.frame {db db' : Db} (h : db.NodeKeys) (hn : db'.nodes = db.nodes) : db'.NodeKeys where
  distinct := hn ▸ h.distinct
  stripped := hn ▸ h.stripped

lemma Db.NodeKeys.amend {db : Db} (h : db.NodeKeys) (n : String) {f : StorageNode → StorageNode}
    (hf : ∀ m, (f m).nodeId = m.nodeId) : (db.amendNode n f).NodeKeys where
  distinct := Table.nodup_amend (f := f) hf h.distinct
  stripped := by
    intro m hm
    obtain ⟨m', hm', rfl⟩ := Table.mem_amend.mp hm
    split_ifs
    · rw [hf]
      exact h.stripped m' hm'
    · exact h.stripped m' hm'

lemma validateNodeId_node {db : Db} (h : ∀ n ∈ db.nodes, strip n.nodeId = n.nodeId) {n m : String}
    {node : StorageNode} (hn : db.node? n = some node) (hv : validateNodeId (.value n) = .ok m) :
    m = n := by
  have hid : node.nodeId = n := Table.lookup_key hn
  rw [validateNodeId_ok hv, ← hid]
  exact h node (Table.lookup_mem hn)

end Vault.Metadata
