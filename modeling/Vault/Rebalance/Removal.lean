import Vault.Rebalance.Safety

/-! When `run_job` may delete the source bytes: the copies that count are then on other nodes, or
there are more of them than the replication factor asks for. -/

namespace Vault.Rebalance

open Vault.Common Vault.Metadata Vault.Storage Vault.Lib Vault.Lib.Script Vault.Lib.Transaction
open Vault.Repair (healthyReplicas)

/-- The target row is such that `run_job` can count more healthy rows than the factor once it has
verified or copied the target. -/
def Surplus (cfg : Config) (job : RebalanceJob) (d₀ : Db) (s₀ : Store) : Prop :=
  match d₀.replicaOn? job.versionId job.targetNodeId with
  | none => cfg.replicationFactor ≤ (healthyReplicas d₀ job.versionId).length
  | some r =>
    if r.status = .healthy then
      cfg.replicationFactor < (healthyReplicas d₀ job.versionId).length ∧
        ∃ b ∈ s₀ job.targetNodeId job.versionId, b.valid = true
    else Copyable r.status ∧ cfg.replicationFactor ≤ (healthyReplicas d₀ job.versionId).length

section Phases

variable {cfg : Config} {job : RebalanceJob} {version : Version} {d₀ : Db} {s₀ : Store} {p : Stop}

abbrev enough (cfg : Config) (job : RebalanceJob) (d₀ : Db) (s₀ : Store) : ℕ :=
  min (backed d₀ s₀ job.versionId).length cfg.replicationFactor

abbrev Touched (cfg : Config) (job : RebalanceJob) (d₀ : Db) (s₀ : Store) (N : List String) (p : Stop) : Prop :=
  Within (enough cfg job d₀ s₀) job.versionId N d₀ s₀ p

def Stable (cfg : Config) (job : RebalanceJob) (d₀ : Db) (s₀ : Store) (p : Stop) : Prop :=
  ∃ N, Spared (enough cfg job d₀ s₀) job.versionId N d₀ s₀ ∧ Touched cfg job d₀ s₀ N p

structure Ready (cfg : Config) (job : RebalanceJob) (d₀ : Db) (s₀ : Store) (N : List String) (p : Stop) :
    Prop where
  free : ∀ r ∈ backed d₀ s₀ job.versionId, r.nodeId ∉ N
  touched : Touched cfg job d₀ s₀ N p
  surplus : cfg.replicationFactor < (healthyReplicas p.session.view job.versionId).length →
    Surplus cfg job d₀ s₀

lemma spared_of_free (hw : d₀.WellFormed) {N : List String}
    (hfree : ∀ r ∈ backed d₀ s₀ job.versionId, r.nodeId ∉ N) :
    Spared (enough cfg job d₀ s₀) job.versionId N d₀ s₀ := by
  refine ⟨hw, ?_⟩
  rw [List.filter_eq_self.mpr (by simpa using hfree)]
  exact min_le_left _ _

lemma wp_verify_of {R : Post Db Failure Note World Blob} {n : String} {j : UUID}
    (hok : ∀ b w, w.store = p.world.store → p.world.store n j = some b → b.valid = true →
      R (.ok b) (p.turn w))
    (herror : ∀ e w, w.store = p.world.store → R (.error e) (p.turn w)) :
    wp answered R (Job.verify n j) p := by
  refine wp_bind.mpr (wp_request.mpr fun b w hw => ?_)
  cases hw
  have hstore : (p.world.pass p.world.store).store = p.world.store := rfl
  simp only [Post.seq_ok]
  cases hm : raiseOnInvalid (measureObject (p.world.future 0).fault n j p.world.store) with
  | error e => exact wp_raise.mpr (herror _ _ hstore)
  | ok b =>
    obtain ⟨hb, hv⟩ := raiseOnInvalid_ok.mp hm
    exact wp_pure.mpr (hok b _ hstore (measureObject_ok hb) hv)

lemma backed_place (hw : d₀.WellFormed) {r : Replica} (hr : r ∈ backed d₀ s₀ job.versionId)
    (hn : r.nodeId = job.targetNodeId) :
    d₀.replicaOn? job.versionId job.targetNodeId = some r ∧ r.status = .healthy := by
  obtain ⟨hm, hi, hs, -⟩ := mem_backed.mp hr
  refine ⟨?_, hs⟩
  have hplace : r.place = (job.versionId, job.targetNodeId) := Prod.ext hi hn
  rw [Db.replicaOn?, ← hplace]
  exact Table.lookup_of_mem hw.places hm

lemma surplus_of_length {d : Db} (h : Off job.versionId [job.targetNodeId] d₀ d)
    (hlt : cfg.replicationFactor < (healthyReplicas d job.versionId).length)
    (hrow : ∀ r ∈ d₀.replicaOn? job.versionId job.targetNodeId, r.status ≠ .healthy → Copyable r.status)
    (hbytes : ∀ r ∈ d₀.replicaOn? job.versionId job.targetNodeId, r.status = .healthy →
      ∃ b ∈ s₀ job.targetNodeId job.versionId, b.valid = true) : Surplus cfg job d₀ s₀ := by
  unfold Surplus
  cases hr : d₀.replicaOn? job.versionId job.targetNodeId with
  | none => exact Nat.lt_succ_iff.mp (hlt.trans_le h.healthy_length_le)
  | some r =>
    have hplace : r.place = (job.versionId, job.targetNodeId) := Table.lookup_key hr
    dsimp only
    split_ifs with hs
    · refine ⟨hlt.trans_le (h.healthy_length_le_of_mem ?_ (congrArg Prod.snd hplace)), hbytes r hr hs⟩
      exact mem_healthyReplicas.mpr ⟨Table.lookup_mem hr, congrArg Prod.fst hplace, hs⟩
    · exact ⟨hrow r hr hs, Nat.lt_succ_iff.mp (hlt.trans_le h.healthy_length_le)⟩

/-- The target has to be copied: no copy that counts is on the target node. -/
structure Unverified (cfg : Config) (job : RebalanceJob) (d₀ : Db) (s₀ : Store) (p : Stop) : Prop where
  free : ∀ r ∈ backed d₀ s₀ job.versionId, r.nodeId ∉ [job.targetNodeId]
  touched : Touched cfg job d₀ s₀ [job.targetNodeId] p
  bytes : ∀ r ∈ d₀.replicaOn? job.versionId job.targetNodeId, r.status = .healthy →
    ∃ b ∈ s₀ job.targetNodeId job.versionId, b.valid = true
  row : ∀ r ∈ d₀.replicaOn? job.versionId job.targetNodeId, r.status ≠ .healthy →
    p.session.view.replicaOn? job.versionId job.targetNodeId = some r

lemma Within.mono {n : ℕ} {i : UUID} {N N' : List String} (h : Within n i N d₀ s₀ p) (hN : N ⊆ N') :
    Within n i N' d₀ s₀ p :=
  ⟨h.durable.mono hN, h.view.mono hN, fun m hm => h.store m fun hn => hm (hN hn), h.past⟩

lemma unverified_of_not_healthy (hw : d₀.WellFormed) (h : Touched cfg job d₀ s₀ [] p)
    (hview : p.session.view = d₀)
    (hs : ∀ r ∈ d₀.replicaOn? job.versionId job.targetNodeId, r.status ≠ .healthy) :
    Unverified cfg job d₀ s₀ p where
  free := by
    intro r hr hn
    obtain ⟨hrow, hst⟩ := backed_place hw hr (by simpa using hn)
    exact hs r hrow hst
  touched := h.mono (List.nil_subset _)
  bytes r hr hst := absurd hst (hs r hr)
  row r hr _ := by rw [hview, hr]

lemma free_of_mismatch (hv : d₀.version? job.versionId = some version) {b : Blob}
    (hb : s₀ job.targetNodeId job.versionId = some b) (hm : ¬b.Matches version) :
    ∀ r ∈ backed d₀ s₀ job.versionId, r.nodeId ∉ [job.targetNodeId] := by
  intro r hr hn
  obtain ⟨-, hi, -, v, hv', b', hb', hmatch⟩ := mem_backed.mp hr
  rw [List.mem_singleton.mp hn] at hb'
  rw [hi] at hv' hb'
  cases hv.symm.trans hv'
  cases hb.symm.trans hb'
  exact hm hmatch

lemma wp_targetVerified (hw : d₀.WellFormed) (hv : d₀.version? job.versionId = some version)
    (h : Touched cfg job d₀ s₀ [] p) (hview : p.session.view = d₀) :
    wp answered (Post.seq
        (fun verified q => if verified then Ready cfg job d₀ s₀ [] q else Unverified cfg job d₀ s₀ q)
        fun _ => Stable cfg job d₀ s₀)
      (targetVerified job version (d₀.replicaOn? job.versionId job.targetNodeId)) p := by
  have hi : version.versionId = job.versionId := version?_id hv
  have hspared : Spared (enough cfg job d₀ s₀) job.versionId [] d₀ s₀ := spared_of_free hw (by simp)
  cases hr : d₀.replicaOn? job.versionId job.targetNodeId with
  | none =>
    refine wp_pure.mpr (unverified_of_not_healthy hw h hview ?_)
    rw [hr]
    simp
  | some r =>
    refine wp_ite.mpr ⟨fun hs => ?_, fun hs => wp_pure.mpr (unverified_of_not_healthy hw h hview ?_)⟩
    · have hsame : ∀ w : World, w.store = p.world.store →
          StoreOff job.versionId [] p.world.store w.store := fun w hst n _ => by rw [hst]
      refine wp_bind.mpr (wp_verify_of (fun b w hst hb hvalid => ?_) fun e w hst =>
        ⟨[], hspared, h.turn hspared (hsame w hst)⟩)
      have hb₀ : s₀ job.targetNodeId job.versionId = some b := by
        rw [hi] at hb
        rw [← hb]
        exact (h.store _ (by simp)).symm
      have hturn := h.turn hspared (hsame w hst)
      refine wp_ite.mpr ⟨fun hm => wp_pure.mpr ⟨by simp, hturn, fun hlt => ?_⟩, fun hm => ?_⟩
      · rw [show (p.turn w).session.view = d₀ from hview] at hlt
        exact surplus_of_length (Off.refl hw) hlt (fun r' hr' hs' => absurd hs (by cases hr.symm.trans hr'; exact hs'))
          fun _ _ _ => ⟨b, hb₀, hvalid⟩
      · have hfree := free_of_mismatch hv hb₀ hm
        have hN : Spared (enough cfg job d₀ s₀) job.versionId [job.targetNodeId] d₀ s₀ :=
          spared_of_free hw hfree
        have hplace : r.place = (job.versionId, job.targetNodeId) := Table.lookup_key hr
        have hstands : Stands (enough cfg job d₀ s₀) job.versionId [job.targetNodeId] d₀ s₀ r (p.turn w) :=
          { within := hturn.mono (List.nil_subset _)
            row := by
              rw [show (p.turn w).session.view = d₀ from hview]
              exact Table.lookup_mem hr
            node := List.mem_singleton.mpr (congrArg Prod.snd hplace) }
        refine wp_bind.mpr (wp_mono ?_ (hstands.enter hN .corrupted))
        intro r' q hq
        cases r' with
        | error e => exact ⟨_, hN, hq⟩
        | ok r'' =>
          refine wp_pure.mpr ⟨hfree, hq.2.within, fun _ _ _ => ⟨b, hb₀, hvalid⟩, fun r' hr' hs' => ?_⟩
          cases hr.symm.trans hr'
          exact absurd hs hs'
    · intro r' hr'
      cases hr.symm.trans hr'
      exact hs

lemma Unverified.copy (hw : d₀.WellFormed) (h : Unverified cfg job d₀ s₀ p)
    (hi : version.versionId = job.versionId) {node : StorageNode}
    (hnode : d₀.node? job.targetNodeId = some node) :
    wp answered (Post.seq (fun _ => Ready cfg job d₀ s₀ [job.targetNodeId]) fun _ => Stable cfg job d₀ s₀)
      (copyToTarget job version) p := by
  have hN : Spared (enough cfg job d₀ s₀) job.versionId [job.targetNodeId] d₀ s₀ :=
    spared_of_free hw h.free
  refine wp_mono ?_ (wp_copyToTarget hN h.touched hi hnode)
  intro r q hq
  cases r with
  | error e => exact ⟨_, hN, hq⟩
  | ok _ =>
    refine ⟨h.free, hq.1, fun hlt => surplus_of_length hq.1.view hlt (fun r hr hs => ?_) h.bytes⟩
    exact (hq.2 r (h.row r hr hs)).resolve_left hs

/-- The source bytes may go: their loss leaves enough copies. -/
def Dispensable (cfg : Config) (job : RebalanceJob) (d₀ : Db) (s₀ : Store) : Prop :=
  (∀ r ∈ backed d₀ s₀ job.versionId, r.nodeId ≠ job.sourceNodeId) ∨
    cfg.replicationFactor < (backed d₀ s₀ job.versionId).length

lemma length_backed_on_le_one (hw : d₀.WellFormed) (i : UUID) (n : String) :
    ((backed d₀ s₀ i).filter (fun r => r.nodeId = n)).length ≤ 1 := by
  have hnodup : ((backed d₀ s₀ i).map Replica.nodeId).Nodup :=
    (nodup_healthyNodes hw i).sublist (List.filter_sublist.map _)
  have hcount := List.nodup_iff_count_le_one.mp hnodup n
  rw [List.count_eq_countP, List.countP_map, List.countP_eq_length_filter] at hcount
  refine le_of_eq_of_le (congrArg List.length (List.filter_congr fun r _ => ?_)) hcount
  exact (beq_eq_decide _ _).symm

lemma length_backed_off (hw : d₀.WellFormed) (i : UUID) (n : String) :
    (backed d₀ s₀ i).length ≤ ((backed d₀ s₀ i).filter (fun r => r.nodeId ≠ n)).length + 1 := by
  have hsplit := List.length_eq_length_filter_add (l := backed d₀ s₀ i) (fun r => decide (r.nodeId = n))
  have hone : ((backed d₀ s₀ i).filter (fun r => r.nodeId = n)).length ≤ 1 :=
    length_backed_on_le_one hw i n
  have hnot : (backed d₀ s₀ i).filter (fun r => !decide (r.nodeId = n)) =
      (backed d₀ s₀ i).filter (fun r => r.nodeId ≠ n) := by
    apply List.filter_congr
    simp
  rw [hnot] at hsplit
  omega

lemma spared_source (hw : d₀.WellFormed) {N : List String}
    (hfree : ∀ r ∈ backed d₀ s₀ job.versionId, r.nodeId ∉ N) (hd : Dispensable cfg job d₀ s₀) :
    Spared (enough cfg job d₀ s₀) job.versionId (job.sourceNodeId :: N) d₀ s₀ := by
  rcases hd with hd | hd
  · apply spared_of_free hw
    intro r hr
    simpa [not_or] using ⟨hd r hr, hfree r hr⟩
  · refine ⟨hw, (min_le_right _ _).trans ?_⟩
    have hfilter : (backed d₀ s₀ job.versionId).filter (fun r => r.nodeId ∉ job.sourceNodeId :: N) =
        (backed d₀ s₀ job.versionId).filter (fun r => r.nodeId ≠ job.sourceNodeId) := by
      apply List.filter_congr
      intro r hr
      simp [hfree r hr]
    rw [hfilter]
    exact Nat.lt_succ_iff.mp (hd.trans_le (length_backed_off hw _ _))

lemma Stable.save (h : Stable cfg job d₀ s₀ p) {f : Db → Db}
    (hf : ∀ N (d : Db), d.WellFormed → Off job.versionId N d (f d)) :
    Stable cfg job d₀ s₀ (p.move (p.session.commit f)) := by
  obtain ⟨N, hN, h⟩ := h
  exact ⟨N, hN, h.save hN (hf N)⟩

lemma off_markJob (i j : UUID) (status : JobStatus) (error : Option String) (N : List String) (d : Db)
    (hw : d.WellFormed) : Off i N d (markJob j status error d) :=
  Off.frame hw rfl rfl rfl le_rfl

/-- Once the source may go, the rest of the job keeps enough copies at every stop. -/
lemma Ready.removeSource (hw : d₀.WellFormed) (hi : version.versionId = job.versionId) {N : List String}
    (h : Ready cfg job d₀ s₀ N p) (hd : Surplus cfg job d₀ s₀ → Dispensable cfg job d₀ s₀) :
    wp answered (fun _ => Stable cfg job d₀ s₀) (removeSource cfg job version) p := by
  have hfree : Spared (enough cfg job d₀ s₀) job.versionId N d₀ s₀ := spared_of_free hw h.free
  unfold Rebalance.removeSource
  rw [hi]
  refine wp_bind.mpr (wp_query.mpr (wp_bind.mpr (wp_require.mpr ⟨fun hlt => ?_, fun _ => ?_⟩)))
  · have hN := spared_source hw h.free (hd (h.surplus hlt))
    have hstart : Touched cfg job d₀ s₀ (job.sourceNodeId :: N) p.look :=
      h.touched.look.mono (List.subset_cons_self _ _)
    refine wp_bind.mpr (wp_mono ?_ (keeps_delete hN List.mem_cons_self _ _ ⟨hstart, rfl⟩))
    rintro r q ⟨hq, -⟩
    cases r with
    | error e => exact ⟨_, hN, hq⟩
    | ok _ =>
      refine wp_bind.mpr (wp_query.mpr ?_)
      cases hs : q.session.view.replicaOn? job.versionId job.sourceNodeId with
      | none =>
        simp only [Post.seq_ok, hs]
        exact wp_pure.mpr ⟨_, hN, hq.look⟩
      | some source =>
        simp only [Post.seq_ok, hs]
        have hplace : source.place = (job.versionId, job.sourceNodeId) := Table.lookup_key hs
        have hnext : Touched cfg job d₀ s₀ (job.sourceNodeId :: N) (q.look.move
            (q.look.session.begin (removeReplica (.value source.replicaId))).2) := by
          refine hq.look.begin hN _ fun w t ht => ?_
          obtain ⟨r, hid, hr, -, rfl⟩ := removeReplica_ok ht
          have hnode : source.nodeId = job.sourceNodeId := congrArg Prod.snd hplace
          rw [← Arg.value.inj hid]
          exact Off.deleteReplica hq.view.wellFormed (Table.lookup_mem hs) (by simp [hnode])
        exact wp_bind_keeps (wp_transaction.mpr ⟨_, hN, hnext⟩) fun _ => keeps_pure _
  · exact ⟨N, hfree, h.touched.look⟩

lemma Ready.finish (hw : d₀.WellFormed) (hi : version.versionId = job.versionId) {N : List String}
    (h : Ready cfg job d₀ s₀ N p) (hd : Surplus cfg job d₀ s₀ → Dispensable cfg job d₀ s₀) :
    wp answered (fun _ => Stable cfg job d₀ s₀)
      (do
        Rebalance.removeSource cfg job version
        save (markJob job.rebalanceId .succeeded none)
        pure (rebalanceResult (job.mark .succeeded none) true)) p :=
  wp_bind_keeps (h.removeSource hw hi hd) fun _ => keeps_bind
    (fun _ hq => wp_save.mpr (hq.save (off_markJob _ _ _ _))) fun _ => keeps_pure _

lemma wp_moveReplica (hw : d₀.WellFormed) (hv : d₀.version? job.versionId = some version)
    {node : StorageNode} (hnode : d₀.node? job.targetNodeId = some node)
    (hd : Surplus cfg job d₀ s₀ → Dispensable cfg job d₀ s₀) (h : Touched cfg job d₀ s₀ [] p)
    (hview : p.session.view = d₀) :
    wp answered (fun _ => Stable cfg job d₀ s₀)
      (moveReplica cfg job version (d₀.replicaOn? job.versionId job.targetNodeId)) p := by
  have hi : version.versionId = job.versionId := version?_id hv
  refine wp_bind.mpr (wp_mono ?_ (wp_targetVerified hw hv h hview))
  intro r q hq
  cases r with
  | error e => exact hq
  | ok verified =>
    cases verified with
    | true => exact Ready.finish hw hi hq hd
    | false =>
      refine wp_bind.mpr (wp_mono ?_ (Unverified.copy hw hq hi hnode))
      intro r q' hq'
      cases r with
      | error e => exact hq'
      | ok _ => exact Ready.finish hw hi hq' hd

lemma keeps_recoverJob (e : Failure) : Keeps answered (Stable cfg job d₀ s₀) (recoverJob cfg job e) := by
  have hfail : ∀ e message, Keeps answered (Stable cfg job d₀ s₀) (failJob cfg job e message) :=
    fun _ _ => keeps_bind (fun _ hq => wp_save.mpr (hq.save (off_markJob _ _ _ _))) fun _ => keeps_raise _
  cases e with
  | client e => exact hfail _ _
  | vault e => exact hfail _ _
  | value m => exact keeps_raise _
  | illTyped => exact keeps_raise _
  | other m => exact keeps_raise _

end Phases

end Vault.Rebalance
