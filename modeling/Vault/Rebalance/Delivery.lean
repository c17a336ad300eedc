import Vault.Rebalance.Draining
import Vault.Rebalance.Removal

/-! What `migrate_replica` has done when it returns: the replica of the job's source is on the target. The job may be
one that an earlier call created for the same target, and then its source is the one that call asked for. -/

namespace Vault.Rebalance

open Vault.Common Vault.Metadata Vault.Storage Vault.Lib Vault.Lib.Script Vault.Lib.Transaction
open Vault.Repair (Active healthyReplicas)

/-- What the program sees: the tables and the bytes. -/
structure Sees (d : Db) (s : Store) (p : Stop) : Prop where
  view : p.session.view = d
  store : p.world.store = s

section Steps

variable {d : Db} {s : Store} {p : Stop}

lemma Sees.look (h : Sees d s p) : Sees d s p.look := ⟨h.view, h.store⟩

lemma wp_findVersion_sees (h : Sees d s p) (i : UUID) :
    wp answered (Post.seq (fun version q => Sees d s q ∧ d.version? i = some version) fun _ _ => True)
      (findVersion i) p := by
  refine wp_bind.mpr (wp_query.mpr (wp_bind.mpr (wp_demand.mpr ⟨fun version hv => ?_, fun _ => trivial⟩)))
  rw [h.view] at hv
  exact wp_bind.mpr (wp_require.mpr ⟨fun _ => wp_pure.mpr ⟨h.look, hv⟩, fun _ => trivial⟩)

lemma wp_findNode_sees (h : Sees d s p) (n : String) :
    wp answered (Post.seq (fun node q => Sees d s q ∧ d.node? n = some node) fun _ _ => True) (findNode n) p := by
  refine wp_bind.mpr (wp_query.mpr (wp_demand.mpr ⟨fun node hn => ?_, fun _ => trivial⟩))
  rw [h.view] at hn
  exact ⟨h.look, hn⟩

lemma wp_verify_sees (h : Sees d s p) (n : String) (i : UUID) :
    wp answered (Post.seq (fun b q => Sees d s q ∧ s n i = some b) fun _ _ => True) (Job.verify n i) p := by
  apply wp_verify_of
  · intro b w hw hb _
    exact ⟨⟨h.view, hw.trans h.store⟩, h.store ▸ hb⟩
  · intro e w _
    trivial

lemma wp_delete_sees (h : Sees d s p) (n : String) (i : UUID) :
    wp answered (Post.seq (fun _ => Sees d (s.set n i none)) fun _ _ => True) (Job.delete n i) p := by
  refine wp_bind.mpr (wp_request.mpr fun b w hw => ?_)
  cases hw
  simp only [Post.seq_ok]
  rcases (p.world.future 0).fault with _ | e | e
  · exact wp_pure.mpr ⟨h.view, by rw [← h.store]; rfl⟩
  · exact wp_raise.mpr trivial
  · exact wp_raise.mpr trivial

lemma wp_copy_sees (h : Sees d s p) (n m : String) (i : UUID) :
    wp answered (Post.seq (fun _ q => ∃ b, Sees d s q ∨ Sees d (s.set m i (some b)) q) fun _ _ => True)
      (Job.copy n m i) p := by
  refine wp_bind.mpr (wp_request.mpr fun opened w hw => ?_)
  cases hw
  simp only [Post.seq_ok]
  cases openStream (p.world.future 0).fault n i p.world.store with
  | error e => exact wp_bind.mpr (wp_raise.mpr trivial)
  | ok _ =>
    refine wp_bind.mpr (wp_pure.mpr (wp_bind.mpr (wp_request.mpr fun answer w' hw' => ?_)))
    cases hw'
    have hstore := putObject_store (p.world.future 1).fault m i (p.world.future 1).received p.world.store
    change wp answered _ (Job.ofClient
      (putObject (p.world.future 1).fault m i (p.world.future 1).received p.world.store).1) _
    cases (putObject (p.world.future 1).fault m i (p.world.future 1).received p.world.store).1 with
    | error e => exact wp_raise.mpr trivial
    | ok _ =>
      refine wp_pure.mpr ⟨(p.world.future 1).received, ?_⟩
      rw [h.store] at hstore
      rcases hstore with hstore | hstore
      · exact Or.inl ⟨h.view, by rw [← hstore, ← h.store]; rfl⟩
      · exact Or.inr ⟨h.view, by rw [← hstore, ← h.store]; rfl⟩

lemma wp_now_sees (h : Sees d s p) :
    wp answered (Post.seq (fun _ => Sees d s) fun _ _ => True) Job.now p := by
  refine wp_request.mpr fun b w hw => ?_
  cases hw
  exact ⟨h.view, h.store⟩

lemma wp_transaction_sees {α : Type} (h : Sees d s p) (body : Metadata.Tx α) :
    wp answered (Post.seq (fun a q => ∃ d', body.run d = .ok (a, d') ∧ Sees d' s q) fun _ _ => True)
      (transaction body) p := by
  refine wp_transaction_view (fun a s' hrun => ?_) fun _ _ _ _ => trivial
  rw [h.view] at hrun
  exact ⟨s'.view, hrun, rfl, h.store⟩

end Steps

/-- The row of the version on the target is `HEALTHY`, as measured there; the rows on other nodes are as they were. -/
structure Copied (job : RebalanceJob) (version : Version) (d d' : Db) : Prop where
  others : Off job.versionId [job.targetNodeId] d d'
  arrived : ∃ r ∈ d'.replicas, r.place = (job.versionId, job.targetNodeId) ∧ r.status = .healthy ∧
    r.checksum = some version.checksum ∧ r.sizeBytes = some version.sizeBytes

section Copy

variable {job : RebalanceJob} {version : Version} {d : Db} {s : Store} {p : Stop}

lemma wp_verifySource_sees (h : Sees d s p) :
    wp answered (Post.seq (fun _ q => Sees d s q ∧ ∃ r ∈ healthyReplicas d job.versionId, r.nodeId = job.sourceNodeId)
      fun _ _ => True) (verifySource job version) p := by
  refine wp_bind.mpr (wp_query.mpr (wp_bind.mpr (wp_require.mpr ⟨fun hsource => ?_, fun _ => trivial⟩)))
  rw [h.view] at hsource
  refine wp_bind_returns (wp_verify_sees h.look _ _) ?_
  rintro b q ⟨hq, -⟩
  exact wp_require.mpr ⟨fun _ => ⟨hq, hsource⟩, fun _ => trivial⟩

/-- The target row is created, since there is none, and brought to `COPYING`. -/
lemma wp_targetReplica_sees (h : Sees d s p) (hw : d.WellFormed) {node : StorageNode}
    (hnode : d.node? job.targetNodeId = some node) (hfree : d.replicaOn? job.versionId job.targetNodeId = none) :
    wp answered (Post.seq (fun replica q => ∃ d', Sees d' s q ∧ Off job.versionId [job.targetNodeId] d d' ∧
      replica ∈ d'.replicas ∧ replica.place = (job.versionId, job.targetNodeId)) fun _ _ => True)
      (targetReplica job) p := by
  have hfind : wp answered (Post.seq (fun replica q => ∃ d', Sees d' s q ∧ Off job.versionId [job.targetNodeId] d d' ∧
      replica ∈ d'.replicas ∧ replica.place = (job.versionId, job.targetNodeId) ∧ replica.status = .pending)
      fun _ _ => True) (findOrCreateReplica job) p := by
    refine wp_bind.mpr (wp_query.mpr ?_)
    rw [Post.seq_ok, h.view, hfree]
    refine wp_mono ?_ (wp_transaction_sees h.look _)
    intro r q hq
    cases r with
    | error e => trivial
    | ok replica =>
      obtain ⟨d', hrun, hq⟩ := hq
      obtain ⟨i, n, hi, hn, -, -, rfl, rfl⟩ := createReplica_ok hrun
      cases hi
      obtain rfl := validateNodeId_node hw.nodeIds hnode hn
      exact ⟨_, hq, Off.insertReplica hw (List.mem_singleton.mpr rfl) hfree,
        List.mem_append_right _ (List.mem_singleton.mpr rfl), rfl, rfl⟩
  refine wp_bind_returns hfind ?_
  rintro replica q ⟨d', hq, hoff, hrow, hplace, hstatus⟩
  have hn : replica.nodeId ∈ [job.targetNodeId] := List.mem_singleton.mpr (congrArg Prod.snd hplace)
  rw [enterCopying, hstatus]
  refine wp_mono ?_ (wp_transaction_sees hq _)
  intro r q' hq'
  cases r with
  | error e => trivial
  | ok w =>
    obtain ⟨d'', hrun, hq'⟩ := hq'
    obtain ⟨r, hr, rfl, hcase⟩ := setReplicaState_row hrun
    cases (replica?_of_mem hoff.wellFormed hrow).symm.trans hr
    rcases hcase with ⟨hst, -⟩ | rfl
    · rw [hstatus] at hst
      cases hst
    · refine ⟨_, hq', hoff.trans (Off.amendReplica hoff.wellFormed hrow hn (fun _ => rfl) fun _ => rfl), ?_, hplace⟩
      exact (mem_amendReplica hoff.wellFormed hrow _).mpr (Or.inr rfl)

lemma wp_copyToTarget_sees (h : Sees d s p) (hw : d.WellFormed) (hv : d.version? job.versionId = some version)
    {node : StorageNode} (hnode : d.node? job.targetNodeId = some node)
    (hfree : d.replicaOn? job.versionId job.targetNodeId = none) :
    wp answered (Post.seq (fun _ q => ∃ d' s', Sees d' s' q ∧ Copied job version d d' ∧
      (∃ r ∈ healthyReplicas d job.versionId, r.nodeId = job.sourceNodeId) ∧
      ∃ b, s' job.targetNodeId job.versionId = some b ∧ b.Matches version) fun _ _ => True)
      (copyToTarget job version) p := by
  have hid : version.versionId = job.versionId := Table.lookup_key hv
  refine wp_bind_returns (wp_verifySource_sees h) ?_
  rintro _ q₁ ⟨hq₁, hsource⟩
  refine wp_bind_returns (wp_targetReplica_sees hq₁ hw hnode hfree) ?_
  rintro replica q₂ ⟨d', hq₂, hoff, hrow, hplace⟩
  refine wp_bind_returns (wp_delete_sees hq₂ _ _) ?_
  rintro _ q₃ hq₃
  refine wp_bind_returns (P := fun _ q => ∃ s', Sees d' s' q) (wp_mono ?_ (wp_copy_sees hq₃ _ _ _)) ?_
  · intro r q hq
    cases r with
    | error e => trivial
    | ok _ =>
      obtain ⟨b, hq | hq⟩ := hq
      · exact ⟨_, hq⟩
      · exact ⟨_, hq⟩
  rintro _ q₄ ⟨s', hq₄⟩
  refine wp_bind_returns (wp_verify_sees hq₄ _ _) ?_
  rintro b q₅ ⟨hq₅, hb⟩
  refine wp_bind.mpr (wp_require.mpr ⟨fun hmatch => ?_, fun _ => trivial⟩)
  refine wp_bind_returns (wp_now_sees hq₅) ?_
  rintro now q₆ hq₆
  refine wp_bind_returns (wp_transaction_sees hq₆ _) ?_
  rintro w q₇ ⟨d'', hrun, hq₇⟩
  obtain ⟨r, v', hrid, hr, hv', hc, hz, -, rfl⟩ := markVerified_ok hrun
  obtain rfl : replica = r := hoff.wellFormed.eq_of_id hrow (Table.lookup_mem hr) hrid
  have hn : replica.nodeId ∈ [job.targetNodeId] := List.mem_singleton.mpr (congrArg Prod.snd hplace)
  have hver : v' = version := by
    have hrv : replica.versionId = job.versionId := congrArg Prod.fst hplace
    have hsame : d'.version? job.versionId = d.version? job.versionId := by rw [Db.version?, hoff.versions, Db.version?]
    rw [hrv, hsame, hv] at hv'
    exact (Option.some.inj hv').symm
  refine wp_pure.mpr ⟨_, s', hq₇, ⟨?_, ?_⟩, hsource, b, hid ▸ hb, hmatch⟩
  · exact hoff.trans (Off.amendReplica hoff.wellFormed hrow hn (fun _ => rfl) fun _ => rfl)
  · refine ⟨_, (mem_amendReplica hoff.wellFormed hrow _).mpr (Or.inr rfl), hplace, rfl, ?_, ?_⟩
    · rw [← hver]
      rfl
    · rw [← hver]
      rfl

end Copy

section Remove

variable {cfg : Config} {job : RebalanceJob} {version : Version} {d : Db} {s : Store} {p : Stop}

lemma healthy_deleteReplica (hw : d.WellFormed) {r : Replica} (hr : r ∈ d.replicas) (i : UUID) :
    (healthyReplicas d i).length ≤ (healthyReplicas (deleteReplica r.replicaId d) i).length + 1 := by
  have hperm := (Table.perm_cons_remove hw.replicaIds hr).filter (fun q => q.versionId = i ∧ q.status = .healthy)
  have hlen := hperm.length_eq
  rw [List.filter_cons] at hlen
  simp only [healthyReplicas, deleteReplica]
  split_ifs at hlen
  · rw [hlen, List.length_cons]
  · rw [hlen]
    exact Nat.le_succ _

/-- The source is gone, its bytes and its row, and enough `HEALTHY` rows are left. -/
lemma wp_removeSource_sees (h : Sees d s p) (hw : d.WellFormed) (hid : version.versionId = job.versionId) :
    wp answered (Post.seq (fun _ q => ∃ d', Sees d' (s.set job.sourceNodeId job.versionId none) q ∧
      Off job.versionId [job.sourceNodeId] d d' ∧ d'.replicaOn? job.versionId job.sourceNodeId = none ∧
      cfg.replicationFactor ≤ (healthyReplicas d' job.versionId).length) fun _ _ => True)
      (removeSource cfg job version) p := by
  refine wp_bind.mpr (wp_query.mpr (wp_bind.mpr (wp_require.mpr ⟨fun hlt => ?_, fun _ => trivial⟩)))
  rw [h.view] at hlt
  refine wp_bind_returns (wp_delete_sees h.look _ _) ?_
  rintro _ q hq
  rw [hid] at hq
  refine wp_bind.mpr (wp_query.mpr ?_)
  rw [Post.seq_ok, hq.view]
  cases hsource : d.replicaOn? job.versionId job.sourceNodeId with
  | none => exact wp_pure.mpr ⟨d, hq.look, Off.refl hw, hsource, hlt.le⟩
  | some source =>
    have hmem := Table.lookup_mem hsource
    have hplace : source.place = (job.versionId, job.sourceNodeId) := Table.lookup_key hsource
    refine wp_bind_returns (wp_transaction_sees hq.look _) ?_
    rintro w q' ⟨d', hrun, hq'⟩
    obtain ⟨r, hr, -, -, rfl⟩ := removeReplica_ok hrun
    have hri : r.replicaId = source.replicaId := (Arg.value.inj hr).symm
    rw [hri] at hq'
    refine wp_pure.mpr ⟨_, hq', Off.deleteReplica hw hmem (List.mem_singleton.mpr (congrArg Prod.snd hplace)), ?_, ?_⟩
    · refine Table.lookup_eq_none.mpr fun r' hr' hkey => ?_
      obtain ⟨hr', hne⟩ := Table.mem_remove.mp hr'
      exact hne (congrArg Replica.replicaId (hw.eq_of_place hr' hmem (hkey.trans hplace.symm)))
    · have hcount := healthy_deleteReplica hw hmem job.versionId
      omega

end Remove

/-- What a migration of version `v` from `source` to `target` is to leave behind, from `d` to `d'`. -/
structure Delivered (cfg : Config) (v : UUID) (source target : String) (version : Version) (d d' : Db) (s' : Store) :
    Prop where
  rowGone : d'.replicaOn? v source = none
  bytesGone : s' source v = none
  arrived : ∃ r ∈ d'.replicas, r.place = (v, target) ∧ r.status = .healthy ∧ r.checksum = some version.checksum ∧
    r.sizeBytes = some version.sizeBytes
  measured : ∃ b, s' target v = some b ∧ b.Matches version
  others : ∀ r : Replica, r.versionId = v → r.nodeId ≠ source → r.nodeId ≠ target →
    (r ∈ d'.replicas ↔ r ∈ d.replicas)
  enough : cfg.replicationFactor ≤ (healthyReplicas d' v).length

section Run

variable {cfg : Config} {job : RebalanceJob} {version : Version} {d : Db} {s : Store} {p : Stop}

def Ended (cfg : Config) (job : RebalanceJob) (version : Version) (d : Db) (result : RebalanceResult) (q : Stop) : Prop :=
  result.sourceNodeId = job.sourceNodeId ∧ result.targetNodeId = job.targetNodeId ∧
    Delivered cfg job.versionId job.sourceNodeId job.targetNodeId version d q.session.durable q.world.store

lemma wp_moveReplica_sees (h : Sees d s p) (hw : d.WellFormed) (hv : d.version? job.versionId = some version)
    {node : StorageNode} (hnode : d.node? job.targetNodeId = some node)
    (hfree : d.replicaOn? job.versionId job.targetNodeId = none) :
    wp answered (Post.seq (Ended cfg job version d) fun _ _ => True) (moveReplica cfg job version none) p := by
  have hid : version.versionId = job.versionId := Table.lookup_key hv
  refine wp_bind.mpr (wp_pure.mpr ?_)
  refine wp_bind_returns (wp_copyToTarget_sees h hw hv hnode hfree) ?_
  rintro _ q₁ ⟨d₁, s₁, hq₁, hcopied, ⟨r, hr, hsource⟩, b, hb, hmatch⟩
  have hne : job.sourceNodeId ≠ job.targetNodeId := by
    intro heq
    obtain ⟨hmem, hrv, -⟩ := mem_healthyReplicas.mp hr
    exact Table.lookup_eq_none.mp hfree r hmem (Prod.ext hrv (hsource.trans heq))
  refine wp_bind_returns (wp_removeSource_sees hq₁ hcopied.others.wellFormed hid) ?_
  rintro _ q₂ ⟨d₂, hq₂, hoff, hgone, henough⟩
  refine wp_bind.mpr (wp_save.mpr (wp_pure.mpr ⟨rfl, rfl, ?_⟩))
  have hdurable : (q₂.move (q₂.session.commit (markJob job.rebalanceId .succeeded none))).session.durable =
      markJob job.rebalanceId .succeeded none d₂ := by
    rw [← hq₂.view]
    rfl
  have hstore : (q₂.move (q₂.session.commit (markJob job.rebalanceId .succeeded none))).world.store =
      s₁.set job.sourceNodeId job.versionId none := hq₂.store
  rw [hdurable, hstore]
  obtain ⟨r', hr', hplace, hstatus, hchecksum, hsize⟩ := hcopied.arrived
  constructor
  · exact hgone
  · exact Store.set_self _ _ _ _
  · refine ⟨r', (hoff.rows r' (congrArg Prod.fst hplace) ?_).mpr hr', hplace, hstatus, hchecksum, hsize⟩
    rw [List.mem_singleton]
    intro heq
    exact hne (heq.symm.trans (congrArg Prod.snd hplace))
  · refine ⟨b, ?_, hmatch⟩
    rw [Store.set, if_neg fun heq => hne heq.1.symm]
    exact hb
  · intro r'' hrv hns hnt
    rw [← hcopied.others.rows r'' hrv (by simpa using hnt)]
    exact hoff.rows r'' hrv (by simpa using hns)
  · exact henough

/-- An attempt that fails is reported: the handler raises again. -/
lemma wp_recoverJob_raises {R : RebalanceResult → Stop → Prop} (e : Failure) :
    wp answered (Post.seq R fun _ _ => True) (recoverJob cfg job e) p := by
  cases e with
  | client e => exact wp_bind.mpr (wp_save.mpr (wp_raise.mpr trivial))
  | vault e => exact wp_bind.mpr (wp_save.mpr (wp_raise.mpr trivial))
  | value m => exact wp_raise.mpr trivial
  | illTyped => exact wp_raise.mpr trivial
  | other m => exact wp_raise.mpr trivial

lemma wp_startJob_sees (h : Sees d s p) (hw : d.WellFormed)
    (hfree : d.replicaOn? job.versionId job.targetNodeId = none) :
    wp answered (Post.seq (fun result q => ∃ version, d.version? job.versionId = some version ∧
      Ended cfg job version d result q) fun _ _ => True) (startJob cfg job) p := by
  refine wp_bind_returns (wp_findVersion_sees h _) ?_
  rintro version q₁ ⟨hq₁, hv⟩
  refine wp_bind_returns (wp_findNode_sees hq₁ _) ?_
  rintro _ q₂ ⟨hq₂, -⟩
  refine wp_bind_returns (wp_findNode_sees hq₂ _) ?_
  rintro node q₃ ⟨hq₃, hnode⟩
  refine wp_bind.mpr (wp_query.mpr (wp_bind.mpr (wp_save.mpr ?_)))
  rw [Post.seq_ok, hq₃.view, hfree]
  have hsees : Sees (d.amendRebalanceJob job.rebalanceId RebalanceJob.start) s
      (q₃.look.move (q₃.look.session.commit (fun db => db.amendRebalanceJob job.rebalanceId RebalanceJob.start))) :=
    ⟨by rw [← hq₃.view]; rfl, hq₃.store⟩
  have hstarted : (d.amendRebalanceJob job.rebalanceId RebalanceJob.start).WellFormed := hw.frame rfl rfl le_rfl
  have hmove : wp answered (Post.seq (fun result q => Ended cfg job.start version
      (d.amendRebalanceJob job.rebalanceId RebalanceJob.start) result q) fun _ _ => True)
      (moveReplica cfg job.start version none) _ := wp_moveReplica_sees hsees hstarted hv hnode hfree
  refine wp_handle.mpr (wp_mono ?_ hmove)
  intro r q hq
  cases r with
  | error e => exact wp_recoverJob_raises e
  | ok result =>
    obtain ⟨hs, ht, hd⟩ := hq
    exact ⟨version, hv, hs, ht, hd.rowGone, hd.bytesGone, hd.arrived, hd.measured, hd.others, hd.enough⟩

lemma wp_runJob_sees (h : Sees d s p) (hw : d.WellFormed) (hjobs : JobKeys d) (hjob : job ∈ d.rebalanceJobs)
    (hactive : Active job.status) (hfree : d.replicaOn? job.versionId job.targetNodeId = none) :
    wp answered (Post.seq (fun result q => ∃ version, d.version? job.versionId = some version ∧
      Ended cfg job version d result q) fun _ _ => True) (runJob cfg job.rebalanceId) p := by
  have hrow : d.rebalanceJob? job.rebalanceId = some job := Table.lookup_of_mem hjobs.distinct hjob
  refine wp_bind.mpr (wp_query.mpr (wp_bind.mpr (wp_demand.mpr ⟨fun job' hjob' => ?_, fun _ => trivial⟩)))
  rw [h.view] at hjob'
  cases hrow.symm.trans hjob'
  refine wp_ite.mpr ⟨fun hdone => ?_, fun _ => wp_ite.mpr ⟨fun hfailed => ?_, fun _ => wp_startJob_sees h.look hw hfree⟩⟩
  · rcases hactive with hactive | hactive <;> cases hactive.symm.trans hdone
  · rcases hactive with hactive | hactive <;> cases hactive.symm.trans hfailed.1

/-- The job that a call runs: an active one for the target if there is one, else one of its own. -/
def Chosen (d : Db) (v : UUID) (source target : String) (job : RebalanceJob) : Prop :=
  activeJob d v target = some job ∨ activeJob d v target = none ∧ job.sourceNodeId = source

lemma wp_createJob_sees (h : Sees d s p) (hw : d.WellFormed) (hjobs : JobKeys d) (v : UUID) (source target : String) :
    wp answered (Post.seq (fun job q => ∃ d', Sees d' s q ∧ d'.replicas = d.replicas ∧ d'.versions = d.versions ∧
      d'.WellFormed ∧ JobKeys d' ∧ job ∈ d'.rebalanceJobs ∧ Active job.status ∧ job.versionId = v ∧
      job.targetNodeId = target ∧ d.replicaOn? v target = none ∧ Chosen d v source target job) fun _ _ => True)
      (createJob v source target) p := by
  refine wp_bind_returns (wp_findVersion_sees h _) ?_
  rintro version q₁ ⟨hq₁, -⟩
  refine wp_bind.mpr (wp_require.mpr ⟨fun _ => ?_, fun _ => trivial⟩)
  refine wp_bind_returns (wp_findNode_sees hq₁ _) ?_
  rintro _ q₂ ⟨hq₂, -⟩
  refine wp_bind_returns (wp_findNode_sees hq₂ _) ?_
  rintro targetNode q ⟨hq, -⟩
  refine wp_bind.mpr (wp_query.mpr (wp_bind.mpr (wp_demand.mpr ⟨fun sourceRow _ => ?_, fun _ => trivial⟩)))
  refine wp_bind.mpr (wp_require.mpr ⟨fun _ => ?_, fun _ => trivial⟩)
  refine wp_bind.mpr (wp_require.mpr ⟨fun _ => ?_, fun _ => trivial⟩)
  refine wp_bind.mpr (wp_require.mpr ⟨fun _ => ?_, fun _ => trivial⟩)
  rw [hq.view]
  cases hfree : d.replicaOn? v target with
  | some existing => exact wp_raise.mpr trivial
  | none =>
  refine wp_bind.mpr (wp_query.mpr ?_)
  rw [Post.seq_ok, hq.look.view]
  cases hactive : activeJob d v target with
  | some job =>
    have hmatch := List.find?_some hactive
    simp only [decide_eq_true_eq] at hmatch
    exact wp_pure.mpr ⟨d, hq.look.look, rfl, rfl, hw, hjobs, List.mem_of_find?_eq_some hactive, hmatch.2.2, hmatch.1,
      hmatch.2.1, rfl, Or.inl hactive⟩
  | none =>
    let job : RebalanceJob :=
      { rebalanceId := d.newUuid, versionId := v, sourceNodeId := source, targetNodeId := target }
    refine wp_bind.mpr (wp_save.mpr (wp_pure.mpr ⟨insertRebalanceJob job d, ⟨?_, hq.store⟩, rfl, rfl,
      hw.frame rfl rfl (Nat.le_succ _), hjobs.insert rfl, List.mem_append_right _ (List.mem_singleton.mpr rfl), Or.inl rfl, rfl,
      rfl, rfl, Or.inr ⟨hactive, rfl⟩⟩))
    change insertRebalanceJob job q.session.view = _
    rw [hq.view]

lemma wp_migrateReplica_sees (h : Sees d s p) (hw : d.WellFormed) (hjobs : JobKeys d) (v : UUID)
    (source target : String) :
    wp answered (Post.seq (fun result q => ∃ job version, d.version? v = some version ∧ Chosen d v source target job ∧
      result.sourceNodeId = job.sourceNodeId ∧ result.targetNodeId = target ∧
      Delivered cfg v job.sourceNodeId target version d q.session.durable q.world.store) fun _ _ => True)
      (migrateReplica cfg v source target) p := by
  refine wp_bind_returns (wp_createJob_sees h hw hjobs v source target) ?_
  rintro job q ⟨d', hq, hrows, hversions, hw', hjobs', hjob, hactive, rfl, rfl, hfree, hchosen⟩
  have hfree' : d'.replicaOn? job.versionId job.targetNodeId = none := by
    rw [Db.replicaOn?, hrows]
    exact hfree
  refine wp_mono ?_ (wp_runJob_sees hq hw' hjobs' hjob hactive hfree')
  intro r q' hq'
  cases r with
  | error e => trivial
  | ok result =>
    obtain ⟨version, hv, hs, ht, hd⟩ := hq'
    refine ⟨job, version, ?_, hchosen, hs, ht, hd.rowGone, hd.bytesGone, hd.arrived, hd.measured, ?_, hd.enough⟩
    · rw [Db.version?, ← hversions]
      exact hv
    · rw [← hrows]
      exact hd.others

end Run

/-- The migration did what was asked: the result names it, and the replica is on the target instead of the source. -/
def Moved (cfg : Config) (v : UUID) (source target : String) (db : Db) (result : RebalanceResult) (q : Stop) : Prop :=
  result.sourceNodeId = source ∧ result.targetNodeId = target ∧ ∃ version, db.version? v = some version ∧
    Delivered cfg v source target version db q.session.durable q.world.store

/-- When it returns, `migrate_replica` has moved what was asked if and only if the job it ran was not one that an
earlier call had left for the same target with another source. -/
theorem migrate_moves_what_was_asked_iff (cfg : Config) (db : Db) (w : World) (v : UUID) (source target : String)
    (hw : db.WellFormed) (hjobs : JobKeys db) (result : RebalanceResult)
    (hreturns : (exec serve (migrateReplica cfg v source target) (Point.start db w)).1 = .ok result) :
    Moved cfg v source target db result (exec serve (migrateReplica cfg v source target) (Point.start db w)).2 ↔
      ∀ job, activeJob db v target = some job → job.sourceNodeId = source := by
  have hsees : Sees db w.store (Point.start db w) := ⟨rfl, rfl⟩
  have hwp : wp answered (Post.seq (fun result q => ∃ job version, db.version? v = some version ∧
      Chosen db v source target job ∧ result.sourceNodeId = job.sourceNodeId ∧ result.targetNodeId = target ∧
      Delivered cfg v job.sourceNodeId target version db q.session.durable q.world.store) fun _ _ => True)
      (migrateReplica cfg v source target) (Point.start db w) :=
    wp_migrateReplica_sees hsees hw hjobs v source target
  have hserve : ∀ {β : Type} (q : Request β) (w : World), answered q w (serve q w).1 (serve q w).2 := fun _ _ => rfl
  have hrun := wp_sound hserve hwp
  rw [hreturns] at hrun
  obtain ⟨job, version, hv, hchosen, hs, ht, hd⟩ := hrun
  constructor
  · rintro ⟨hsource, -, -⟩ job' hjob'
    rcases hchosen with hchosen | ⟨hnone, -⟩
    · cases hchosen.symm.trans hjob'
      exact hs.symm.trans hsource
    · cases hnone.symm.trans hjob'
  · intro hall
    have hsource : job.sourceNodeId = source := by
      rcases hchosen with hchosen | ⟨-, hnew⟩
      · exact hall job hchosen
      · exact hnew
    rw [hsource] at hs hd
    exact ⟨hs, ht, version, hv, hd⟩

def settledDb : Db := { sampleDb with repairJobs := [] }

/-- The source holds the bytes of the version, and every `PUT` sends them. -/
def faithfulWorld : World := ⟨fun n i => if n ≠ "b" ∧ i = ⟨1⟩ then some sampleBlob else none, fun _ => { received := sampleBlob }⟩

theorem settled_copy_moved :
    ∃ result, (exec serve (migrateReplica ⟨1, 3, one_copy_pos, three_attempts_pos⟩ ⟨1⟩ "a" "b")
        (Point.start settledDb faithfulWorld)).1 = .ok result ∧
      Moved ⟨1, 3, one_copy_pos, three_attempts_pos⟩ ⟨1⟩ "a" "b" settledDb result
        (exec serve (migrateReplica ⟨1, 3, one_copy_pos, three_attempts_pos⟩ ⟨1⟩ "a" "b")
          (Point.start settledDb faithfulWorld)).2 := by
  have hreturns : (exec serve (migrateReplica ⟨1, 3, one_copy_pos, three_attempts_pos⟩ ⟨1⟩ "a" "b")
      (Point.start settledDb faithfulWorld)).1 = .ok ⟨⟨4⟩, ⟨1⟩, "a", "b", .succeeded, 1, true⟩ := by decide +kernel
  have hnojob : ∀ job, activeJob settledDb ⟨1⟩ "b" = some job → job.sourceNodeId = "a" := by
    intro job hjob
    cases hjob
  have hw : settledDb.WellFormed := ⟨by decide, by decide, by decide, by decide⟩
  have hjobs : JobKeys settledDb := ⟨by decide, by decide⟩
  refine ⟨_, hreturns, ?_⟩
  exact (migrate_moves_what_was_asked_iff _ settledDb faithfulWorld ⟨1⟩ "a" "b" hw hjobs _ hreturns).mpr hnojob

/-- Of two copies, `c` is asked to move to `b` while a job from `a` to `b` is waiting. -/
example :
    let node : StorageNode := { nodeId := "c", address := "http://c", status := .healthy, capacityBytes := 100 }
    let copy : Replica :=
      { replicaId := ⟨5⟩, versionId := ⟨1⟩, nodeId := "c", status := .healthy, checksum := some zeroChecksum,
        sizeBytes := some 7, lastVerifiedAt := some 0 }
    let waiting : RebalanceJob := { rebalanceId := ⟨3⟩, versionId := ⟨1⟩, sourceNodeId := "a", targetNodeId := "b" }
    let db : Db :=
      { settledDb with nodes := sampleDb.nodes ++ [node], replicas := sampleDb.replicas ++ [copy], rebalanceJobs := [waiting] }
    ((exec serve (migrateReplica ⟨1, 3, one_copy_pos, three_attempts_pos⟩ ⟨1⟩ "c" "b")
      (Point.start db faithfulWorld)).1.toOption.map RebalanceResult.sourceNodeId) = some "a" := by
  decide +kernel

end Vault.Rebalance
