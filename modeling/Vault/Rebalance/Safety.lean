import Vault.Rebalance.Coverage

/-! What `run_job` touches before it deletes the source: only the target node's row and bytes. -/

namespace Vault.Rebalance

open Vault.Common Vault.Metadata Vault.Storage Vault.Lib Vault.Lib.Script Vault.Lib.Transaction
open Vault.Repair (healthyReplicas)

section Counting

variable {i : UUID} {t : String} {d₀ d : Db}

lemma mem_healthyReplicas {r : Replica} :
    r ∈ healthyReplicas d i ↔ r ∈ d.replicas ∧ r.versionId = i ∧ r.status = .healthy := by
  simp only [healthyReplicas, List.mem_filter, decide_eq_true_eq]

lemma nodup_healthyNodes (hw : d.WellFormed) (i : UUID) :
    ((healthyReplicas d i).map Replica.nodeId).Nodup := by
  refine ((Db.WellFormed.nodup hw).filter _).map_on ?_
  intro r hr r' hr' he
  obtain ⟨hm, hi, -⟩ := mem_healthyReplicas.mp hr
  obtain ⟨hm', hi', -⟩ := mem_healthyReplicas.mp hr'
  exact hw.eq_of_place hm hm' (Prod.ext (hi.trans hi'.symm) he)

lemma Off.healthyNodes (h : Off i [t] d₀ d) {n : String}
    (hn : n ∈ (healthyReplicas d i).map Replica.nodeId) (hne : n ≠ t) :
    n ∈ (healthyReplicas d₀ i).map Replica.nodeId := by
  obtain ⟨r, hr, rfl⟩ := List.mem_map.mp hn
  obtain ⟨hm, hi, hs⟩ := mem_healthyReplicas.mp hr
  exact List.mem_map_of_mem (mem_healthyReplicas.mpr ⟨(h.rows r hi (by simpa using hne)).mp hm, hi, hs⟩)

lemma Off.healthy_length_le (h : Off i [t] d₀ d) :
    (healthyReplicas d i).length ≤ (healthyReplicas d₀ i).length + 1 := by
  have hsub : (healthyReplicas d i).map Replica.nodeId ⊆ t :: (healthyReplicas d₀ i).map Replica.nodeId := by
    intro n hn
    by_cases hne : n = t
    · exact hne ▸ List.mem_cons_self
    · exact List.mem_cons_of_mem _ (h.healthyNodes hn hne)
  simpa using ((nodup_healthyNodes h.wellFormed i).subperm hsub).length_le

lemma Off.healthy_length_le_of_mem (h : Off i [t] d₀ d) {r : Replica} (hr : r ∈ healthyReplicas d₀ i)
    (ht : r.nodeId = t) : (healthyReplicas d i).length ≤ (healthyReplicas d₀ i).length := by
  have hsub : (healthyReplicas d i).map Replica.nodeId ⊆ (healthyReplicas d₀ i).map Replica.nodeId := by
    intro n hn
    by_cases hne : n = t
    · rw [hne, ← ht]
      exact List.mem_map_of_mem hr
    · exact h.healthyNodes hn hne
  simpa using ((nodup_healthyNodes h.wellFormed i).subperm hsub).length_le

end Counting

section Rows

variable {enough : ℕ} {i : UUID} {N : List String} {d₀ : Db} {s₀ : Store} {p : Stop} {replica : Replica}

lemma replica?_of_mem {d : Db} (hw : d.WellFormed) (hr : replica ∈ d.replicas) :
    d.replica? replica.replicaId = some replica :=
  Table.lookup_of_mem hw.replicaIds hr

/-- The row stands in the view, on one of the nodes listed. -/
structure Stands (enough : ℕ) (i : UUID) (N : List String) (d₀ : Db) (s₀ : Store) (replica : Replica)
    (p : Stop) : Prop where
  within : Within enough i N d₀ s₀ p
  row : replica ∈ p.session.view.replicas
  node : replica.nodeId ∈ N

lemma Stands.enter (hN : Spared enough i N d₀ s₀) (h : Stands enough i N d₀ s₀ replica p)
    (state : ReplicaState) :
    wp answered (Post.seq (fun w q => w = replica.enter state ∧ Stands enough i N d₀ s₀ w q)
        fun _ => Within enough i N d₀ s₀)
      (transaction (setReplicaState (.value replica.replicaId) (.value state))) p := by
  have hw := h.within.view.wellFormed
  have hnext : Within enough i N d₀ s₀ (p.move
      (p.session.begin (setReplicaState (.value replica.replicaId) (.value state))).2) := by
    refine h.within.begin hN _ fun w t ht => ?_
    obtain ⟨r, -, -, ⟨-, rfl⟩ | rfl⟩ := setReplicaState_row ht
    · exact Off.refl hw
    · exact Off.amendReplica hw h.row h.node (fun _ => rfl) fun _ => rfl
  refine wp_transaction_of (fun w t ht hview => ?_) fun e _ => hnext
  obtain ⟨r, hr, rfl, hcase⟩ := setReplicaState_row ht
  cases (replica?_of_mem hw h.row).symm.trans hr
  refine ⟨rfl, hnext, ?_, h.node⟩
  rw [Point.move, hview]
  rcases hcase with ⟨rfl, rfl⟩ | rfl
  · exact h.row
  · exact (mem_amendReplica hw h.row _).mpr (Or.inr rfl)

/-- A row that `_target_replica` can bring to `COPYING`. -/
def Copyable (s : ReplicaState) : Prop := s ∈ [ReplicaState.pending, .corrupted, .stale, .unavailable, .copying]

instance (s : ReplicaState) : Decidable (Copyable s) := inferInstanceAs (Decidable (_ ∈ _))

lemma wp_enterCopying (hN : Spared enough i N d₀ s₀) (h : Stands enough i N d₀ s₀ replica p) :
    wp answered (Post.seq (fun w q => Stands enough i N d₀ s₀ w q ∧
        (replica.status = .healthy ∨ Copyable replica.status)) fun _ => Within enough i N d₀ s₀)
      (enterCopying replica) p := by
  unfold enterCopying
  refine wp_ite.mpr ⟨fun hs => wp_pure.mpr ⟨h, Or.inl hs⟩, fun _ => ?_⟩
  refine wp_ite.mpr ⟨fun hs => ?_, fun _ => wp_ite.mpr ⟨fun hs => ?_, fun _ => ?_⟩⟩
  · refine wp_mono ?_ (h.enter hN .copying)
    intro r q hq
    cases r with
    | error e => exact hq
    | ok w => exact ⟨hq.2, Or.inr (by simp [Copyable, hs])⟩
  · have hcopy : Copyable replica.status := by
      simp only [Copyable, List.mem_cons] at hs ⊢
      tauto
    refine wp_bind.mpr (wp_mono ?_ (h.enter hN .repairing))
    intro r q hq
    cases r with
    | error e => exact hq
    | ok w =>
      obtain ⟨rfl, hq⟩ := hq
      refine wp_mono ?_ (hq.enter hN .copying)
      intro r q' hq'
      cases r with
      | error e => exact hq'
      | ok w' => exact ⟨hq'.2, Or.inr hcopy⟩
  · refine wp_bind.mpr (wp_require.mpr ⟨fun hs => wp_pure.mpr ⟨h, Or.inr ?_⟩, fun _ => h.within⟩)
    simp [Copyable, hs]

end Rows

section Copy

variable {enough : ℕ} {job : RebalanceJob} {version : Version} {d₀ : Db} {s₀ : Store} {p : Stop}

lemma wp_findOrCreateReplica
    (hN : Spared enough job.versionId [job.targetNodeId] d₀ s₀)
    (h : Within enough job.versionId [job.targetNodeId] d₀ s₀ p) {node : StorageNode}
    (hnode : d₀.node? job.targetNodeId = some node) :
    wp answered (Post.seq
      (fun r q => Stands enough job.versionId [job.targetNodeId] d₀ s₀ r q ∧
        (p.session.view.replicaOn? job.versionId job.targetNodeId = some r ∨
          p.session.view.replicaOn? job.versionId job.targetNodeId = none ∧ r.status = .pending))
      fun _ => Within enough job.versionId [job.targetNodeId] d₀ s₀) (findOrCreateReplica job) p := by
  refine wp_bind.mpr (wp_query.mpr ?_)
  have hw := h.view.wellFormed
  cases hr : p.session.view.replicaOn? job.versionId job.targetNodeId with
  | some r =>
    simp only [Post.seq_ok, hr]
    have hplace : r.place = (job.versionId, job.targetNodeId) := Table.lookup_key hr
    have hn : r.nodeId = job.targetNodeId := congrArg Prod.snd hplace
    exact wp_pure.mpr ⟨⟨h.look, Table.lookup_mem hr, by simp [hn]⟩, Or.inl rfl⟩
  | none =>
    simp only [Post.seq_ok, hr]
    have hnode' : p.session.view.node? job.targetNodeId = some node := by
      unfold Db.node?
      rw [h.view.nodes]
      exact hnode
    have hnext : Within enough job.versionId [job.targetNodeId] d₀ s₀ (p.look.move
        (p.look.session.begin (createReplica (.value job.versionId) (.value job.targetNodeId))).2) := by
      refine h.look.begin hN _ fun r t ht => ?_
      obtain ⟨i, n, hi, hn, hfree, -, -, rfl⟩ := createReplica_ok ht
      cases hi
      rw [validateNodeId_node hw.nodeIds hnode' hn] at hfree ⊢
      exact Off.insertReplica hw (by simp) hfree
    refine wp_transaction_of (fun r t ht hview => ?_) fun e _ => hnext
    obtain ⟨i, n, hi, hn, -, -, rfl, rfl⟩ := createReplica_ok ht
    cases hi
    rw [validateNodeId_node hw.nodeIds hnode' hn] at hview ⊢
    refine ⟨⟨hnext, ?_, by simp⟩, Or.inr ⟨trivial, rfl⟩⟩
    rw [Point.move, hview]
    exact List.mem_append_right _ (List.mem_singleton_self _)

lemma wp_targetReplica (hN : Spared enough job.versionId [job.targetNodeId] d₀ s₀)
    (h : Within enough job.versionId [job.targetNodeId] d₀ s₀ p) {node : StorageNode}
    (hnode : d₀.node? job.targetNodeId = some node) :
    wp answered (Post.seq
      (fun w q => Stands enough job.versionId [job.targetNodeId] d₀ s₀ w q ∧
        ∀ r ∈ p.session.view.replicaOn? job.versionId job.targetNodeId,
          r.status = .healthy ∨ Copyable r.status)
      fun _ => Within enough job.versionId [job.targetNodeId] d₀ s₀) (targetReplica job) p := by
  refine wp_bind.mpr (wp_mono ?_ (wp_findOrCreateReplica hN h hnode))
  intro r q hq
  cases r with
  | error e => exact hq
  | ok replica =>
    refine wp_mono ?_ (wp_enterCopying hN hq.1)
    intro r' q' hq'
    cases r' with
    | error e => exact hq'
    | ok w =>
      refine ⟨hq'.1, fun r hr => ?_⟩
      rcases hq.2 with hsome | ⟨hnone, -⟩
      · cases hsome.symm.trans hr
        exact hq'.2
      · cases hnone.symm.trans hr

lemma keeps_matchesMetadata (measured : Blob) (message : String) (I : Stop → Prop) :
    Keeps answered I (matchesMetadata measured version message) :=
  keeps_require _ _

lemma keeps_verifySource {N : List String} (hN : Spared enough job.versionId N d₀ s₀) :
    KeepsResting enough job.versionId N d₀ s₀ (verifySource job version) :=
  fun d => keeps_bind (keeps_query_resting d) fun _ => keeps_bind (keeps_require _ _) fun _ =>
    keeps_bind (keeps_verify hN _ _ d) fun _ => keeps_matchesMetadata _ _ _

lemma Stands.markVerified {i : UUID} {N : List String} (hN : Spared enough i N d₀ s₀) {replica : Replica}
    (h : Stands enough i N d₀ s₀ replica p) (now : Time) (c : Checksum) (z : ℕ) :
    wp answered (fun _ => Within enough i N d₀ s₀)
      (transaction (markVerified Replica.status now replica.replicaId c z)) p := by
  refine wp_transaction.mpr (h.within.begin hN _ fun w t ht => ?_)
  obtain ⟨r, v, hid, hr, -, -, -, -, rfl⟩ := markVerified_ok ht
  rw [← hid] at hr ⊢
  exact Off.amendReplica h.within.view.wellFormed h.row h.node (fun _ => rfl) fun _ => rfl

lemma Stands.rest {i : UUID} {N : List String} {α β : Type} {replica : Replica} {x : Job α}
    (hx : KeepsResting enough i N d₀ s₀ x) {f : α → Job β}
    (h : Stands enough i N d₀ s₀ replica p)
    (hf : ∀ a q, Stands enough i N d₀ s₀ replica q → wp answered (fun _ => Within enough i N d₀ s₀) (f a) q) :
    wp answered (fun _ => Within enough i N d₀ s₀) (x >>= f) p := by
  refine wp_bind.mpr (wp_mono ?_ (hx p.session.view p ⟨h.within, rfl⟩))
  rintro r q ⟨hq, hview⟩
  cases r with
  | error e => exact hq
  | ok a => exact hf a q ⟨hq, hview ▸ h.row, h.node⟩

lemma wp_copyToTarget (hN : Spared enough job.versionId [job.targetNodeId] d₀ s₀)
    (h : Within enough job.versionId [job.targetNodeId] d₀ s₀ p) {node : StorageNode}
    (hi : version.versionId = job.versionId) (hnode : d₀.node? job.targetNodeId = some node) :
    wp answered (Post.seq
      (fun _ q => Within enough job.versionId [job.targetNodeId] d₀ s₀ q ∧
        ∀ r ∈ p.session.view.replicaOn? job.versionId job.targetNodeId,
          r.status = .healthy ∨ Copyable r.status)
      fun _ => Within enough job.versionId [job.targetNodeId] d₀ s₀) (copyToTarget job version) p := by
  unfold copyToTarget
  rw [hi]
  refine wp_bind.mpr (wp_mono ?_ (keeps_verifySource hN p.session.view p ⟨h, rfl⟩))
  rintro r q ⟨hq, hview⟩
  cases r with
  | error e => exact hq
  | ok _ =>
    refine wp_bind.mpr (wp_mono ?_ (wp_targetReplica hN hq hnode))
    intro r q' hq'
    cases r with
    | error e => exact hq'
    | ok w =>
      obtain ⟨hstands, hst⟩ := hq'
      rw [hview] at hst
      refine wp_mono (R := fun _ => Within enough job.versionId [job.targetNodeId] d₀ s₀) ?_ ?_
      · intro r q'' hq''
        cases r with
        | error e => exact hq''
        | ok _ => exact ⟨hq'', hst⟩
      · refine hstands.rest (keeps_delete hN (by simp)) fun _ _ h₁ => ?_
        refine h₁.rest (keeps_copy hN (by simp)) fun _ _ h₂ => ?_
        refine h₂.rest (keeps_verify hN _ _) fun measured _ h₃ => ?_
        refine h₃.rest (fun _ => keeps_matchesMetadata _ _ _) fun _ _ h₄ => ?_
        refine h₄.rest (keeps_now hN) fun now _ h₅ => ?_
        exact wp_bind_keeps (h₅.markVerified hN _ _ _) fun _ => keeps_pure _

end Copy

end Vault.Rebalance
