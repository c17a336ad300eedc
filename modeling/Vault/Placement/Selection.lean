import Vault.Lib.Rules
import Vault.Metadata.Validation

/-! `PlacementManager.select_nodes`: the healthy nodes that have room for a version and no replica row of it,
the roomiest first, as many as the replication factor asks for. -/

namespace Vault.Placement

open Vault.Common Vault.Metadata Vault.Lib Vault.Lib.Script

def room (n : StorageNode) : ℤ := n.capacityBytes - n.usedBytes

def roomierFirst (a b : StorageNode) : Bool :=
  room b < room a || (room a == room b && a.nodeId ≤ b.nodeId)

def Eligible (db : Db) (versionId : UUID) (sizeBytes : ℕ) (n : StorageNode) : Prop :=
  n.status = .healthy ∧ sizeBytes ≤ room n ∧ ∀ r ∈ db.replicas, r.versionId = versionId → r.nodeId ≠ n.nodeId

instance (db : Db) (versionId : UUID) (sizeBytes : ℕ) (n : StorageNode) :
    Decidable (Eligible db versionId sizeBytes n) :=
  inferInstanceAs (Decidable (_ ∧ _))

def candidates (db : Db) (versionId : UUID) (sizeBytes factor : ℕ) : List StorageNode :=
  ((db.nodes.filter (fun n => Eligible db versionId sizeBytes n)).mergeSort roomierFirst).take factor

def selectNodes {Q : Type → Type} {N : Type} (versionId : UUID) (sizeBytes factor : ℕ) :
    Script Db Failure Q N (List StorageNode) := do
  let db ← query
  let nodes := candidates db versionId sizeBytes factor
  require (factor ≤ nodes.length) (.vault ⟨.insufficientReplicas,
    s!"Requested {factor} replicas, but only {nodes.length} eligible storage nodes are available.", 503⟩)
  pure nodes

variable {db : Db} {i : UUID} {size factor : ℕ}

lemma length_candidates_le : (candidates db i size factor).length ≤ factor := by
  rw [candidates, List.length_take]
  exact min_le_left _ _

lemma mem_candidates {n : StorageNode} (h : n ∈ candidates db i size factor) :
    n ∈ db.nodes ∧ Eligible db i size n := by
  have hm := List.mem_of_mem_take h
  rw [List.mem_mergeSort, List.mem_filter, decide_eq_true_eq] at hm
  exact hm

lemma nodup_candidates (h : (db.nodes.map StorageNode.nodeId).Nodup) :
    ((candidates db i size factor).map StorageNode.nodeId).Nodup := by
  have hperm := (List.mergeSort_perm (db.nodes.filter (fun n => Eligible db i size n)) roomierFirst).map
    StorageNode.nodeId
  have hsorted := hperm.nodup_iff.mpr (h.sublist (List.filter_sublist.map _))
  exact hsorted.sublist ((List.take_sublist _ _).map _)

end Vault.Placement
