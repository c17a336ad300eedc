import Vault.Rebalance.Removal

/-! A stop of `run_job` at any point leaves enough copies, unless the job deletes the bytes of a source
that counts while no more copies than the replication factor exist: the promotion of the target is
not durable yet when the source bytes go. -/

namespace Vault.Rebalance

open Vault.Common Vault.Metadata Vault.Storage Vault.Lib Vault.Lib.Script Vault.Lib.Transaction
open Vault.Repair (healthyReplicas)

/-- Every state that a run of the job leaves behind has as many copies of the version as there were at
the start, or as many as the factor asks for. -/
def CrashSafe (cfg : Config) (rebalanceId : UUID) (db : Db) (store : Store) : Prop :=
  ∀ job ∈ db.rebalanceJob? rebalanceId, ∀ future s w,
    .state s w ∈ (exec serve (runJob cfg rebalanceId) (Point.start db ⟨store, future⟩)).2.past →
      min (backed db store job.versionId).length cfg.replicationFactor ≤
        (backed s.durable w.store job.versionId).length

/-- The checks before the job is marked `RUNNING` pass. -/
structure Runs (cfg : Config) (job : RebalanceJob) (version : Version) (db : Db) : Prop where
  pending : job.status ≠ .succeeded ∧ ¬(job.status = .failed ∧ cfg.maxAttempts ≤ job.attempts)
  found : db.version? job.versionId = some version
  committed : version.state = .committed
  source : (db.node? job.sourceNodeId).isSome
  target : (db.node? job.targetNodeId).isSome

structure Exposed (cfg : Config) (job : RebalanceJob) (db : Db) (store : Store) : Prop where
  runs : ∃ version, Runs cfg job version db
  counts : ∃ r ∈ backed db store job.versionId, r.nodeId = job.sourceNodeId
  few : (backed db store job.versionId).length ≤ cfg.replicationFactor
  surplus : Surplus cfg job db store

section Safety

variable {cfg : Config} {job : RebalanceJob} {version : Version} {db : Db} {store : Store}

lemma dispensable_of_not_exposed (hr : Runs cfg job version db) (h : ¬Exposed cfg job db store)
    (hs : Surplus cfg job db store) : Dispensable cfg job db store := by
  unfold Dispensable
  by_contra hd
  push Not at hd
  exact h ⟨⟨version, hr⟩, hd.1, hd.2, hs⟩

def Db.started (db : Db) (job : RebalanceJob) : Db :=
  db.amendRebalanceJob job.rebalanceId RebalanceJob.start

lemma wp_migration (hw : db.WellFormed) (hr : Runs cfg job version db) (h : ¬Exposed cfg job db store)
    {p : Stop} (hp : Touched cfg job.start (Db.started db job) store [] p)
    (hview : p.session.view = Db.started db job) :
    wp answered (fun _ => Stable cfg job.start (Db.started db job) store)
      (handle (moveReplica cfg job.start version (db.replicaOn? job.versionId job.targetNodeId))
        (recoverJob cfg job.start)) p := by
  have hw' : (Db.started db job).WellFormed := hw.frame rfl rfl le_rfl
  obtain ⟨node, hnode⟩ := Option.isSome_iff_exists.mp hr.target
  have hd₀ : Surplus cfg job db store → Dispensable cfg job db store := dispensable_of_not_exposed hr h
  have hd : Surplus cfg job.start (Db.started db job) store →
      Dispensable cfg job.start (Db.started db job) store := hd₀
  have hmove : wp answered (fun _ => Stable cfg job.start (Db.started db job) store)
      (moveReplica cfg job.start version
        ((Db.started db job).replicaOn? job.start.versionId job.start.targetNodeId)) p :=
    wp_moveReplica hw' hr.found hnode hd hp hview
  refine wp_handle.mpr (wp_mono ?_ hmove)
  intro r q hq
  cases r with
  | ok result => exact hq
  | error e => exact keeps_recoverJob e q hq

/-- Nothing has been done yet. -/
structure Quiet (db : Db) (store : Store) (p : Stop) : Prop where
  view : p.session.view = db
  durable : p.session.durable = db
  store : p.world.store = store
  past : p.past = []

lemma Quiet.look {p : Stop} (h : Quiet db store p) : Quiet db store p.look :=
  ⟨h.view, h.durable, h.store, h.past⟩

lemma wp_findVersion {p : Stop} (h : Quiet db store p) (i : UUID) :
    wp answered (Post.seq
      (fun v q => Quiet db store q ∧ db.version? i = some v ∧ v.state = .committed)
      fun _ => Quiet db store) (findVersion i) p := by
  refine wp_bind.mpr (wp_query.mpr (wp_bind.mpr (wp_demand.mpr ⟨fun v hv => ?_, fun _ => h.look⟩)))
  refine wp_bind.mpr (wp_require.mpr ⟨fun hc => wp_pure.mpr ⟨h.look, ?_, hc⟩, fun _ => h.look⟩)
  rw [← h.view]
  exact hv

lemma wp_findNode {p : Stop} (h : Quiet db store p) (n : String) :
    wp answered (Post.seq (fun node q => Quiet db store q ∧ db.node? n = some node)
      fun _ => Quiet db store) (findNode n) p := by
  refine wp_bind.mpr (wp_query.mpr (wp_demand.mpr ⟨fun node hn => ⟨h.look, ?_⟩, fun _ => h.look⟩))
  rw [← h.view]
  exact hn

lemma touched_started (hw : db.WellFormed) {p : Stop} (h : Quiet db store p) :
    Touched cfg job.start (Db.started db job) store []
      (p.move (p.session.commit fun db => db.amendRebalanceJob job.rebalanceId RebalanceJob.start)) := by
  have hw' : (Db.started db job).WellFormed := hw.frame rfl rfl le_rfl
  have hview : p.session.commit (fun db => db.amendRebalanceJob job.rebalanceId RebalanceJob.start) =
      Session.fresh (Db.started db job) := by
    rw [Session.commit, h.view]
    rfl
  rw [hview]
  refine ⟨Off.refl hw', Off.refl hw', fun n _ => by rw [Point.move, h.store], ?_⟩
  intro s w hm
  rw [Point.move, h.past, List.nil_append, List.mem_singleton] at hm
  cases hm
  rw [h.store]
  exact min_le_left _ _

def Enough (cfg : Config) (job : RebalanceJob) (db : Db) (store : Store) (p : Stop) : Prop :=
  ∀ s w, .state s w ∈ p.past → min (backed db store job.versionId).length cfg.replicationFactor ≤
    (backed s.durable w.store job.versionId).length

lemma Quiet.enough {p : Stop} (h : Quiet db store p) : Enough cfg job db store p := by
  intro s w hm
  rw [h.past] at hm
  cases hm

lemma Stable.enough {p : Stop} (h : Stable cfg job.start (Db.started db job) store p) :
    Enough cfg job db store p := by
  obtain ⟨N, -, h⟩ := h
  exact h.past

lemma wp_startJob (hw : db.WellFormed) (h : ¬Exposed cfg job db store)
    (hpending : job.status ≠ .succeeded ∧ ¬(job.status = .failed ∧ cfg.maxAttempts ≤ job.attempts))
    {p : Stop} (hp : Quiet db store p) :
    wp answered (fun _ => Enough cfg job db store) (startJob cfg job) p := by
  refine wp_bind.mpr (wp_mono ?_ (wp_findVersion hp job.versionId))
  rintro (e | version) p₁ h₁
  · exact Quiet.enough h₁
  obtain ⟨h₁, hv, hc⟩ := h₁
  refine wp_bind.mpr (wp_mono ?_ (wp_findNode h₁ job.sourceNodeId))
  rintro (e | source) p₂ h₂
  · exact Quiet.enough h₂
  obtain ⟨h₂, hs⟩ := h₂
  refine wp_bind.mpr (wp_mono ?_ (wp_findNode h₂ job.targetNodeId))
  rintro (e | target) p₃ h₃
  · exact Quiet.enough h₃
  obtain ⟨h₃, ht⟩ := h₃
  have hr : Runs cfg job version db := ⟨hpending, hv, hc, by simp [hs], by simp [ht]⟩
  refine wp_bind.mpr (wp_query.mpr (wp_bind.mpr (wp_save.mpr ?_)))
  rw [h₃.view]
  refine wp_mono (fun _ _ hq => hq.enough) (wp_migration hw hr h (touched_started hw h₃.look) ?_)
  change p₃.session.view.amendRebalanceJob job.rebalanceId RebalanceJob.start = _
  rw [h₃.view]
  rfl

lemma crashSafe_of_not_exposed (hw : db.WellFormed) {rebalanceId : UUID}
    (h : ¬∃ job ∈ db.rebalanceJob? rebalanceId, Exposed cfg job db store) :
    CrashSafe cfg rebalanceId db store := by
  intro job hjob future
  have hp : Quiet db store (Point.start db ⟨store, future⟩) := ⟨rfl, rfl, rfl, rfl⟩
  have hwp : wp answered (fun _ => Enough cfg job db store) (runJob cfg rebalanceId)
      (Point.start db ⟨store, future⟩) := by
    refine wp_bind.mpr (wp_query.mpr (wp_bind.mpr (wp_demand.mpr ⟨fun job' hj => ?_, fun _ => ?_⟩)))
    · cases hj.symm.trans hjob
      refine wp_ite.mpr ⟨fun _ => wp_pure.mpr hp.look.enough, fun hs => ?_⟩
      refine wp_ite.mpr ⟨fun _ => wp_pure.mpr hp.look.enough, fun hf => ?_⟩
      exact wp_startJob hw (fun he => h ⟨job, hjob, he⟩) ⟨hs, hf⟩ hp.look
    · exact hp.look.enough
  exact wp_sound (fun _ _ => rfl) hwp

end Safety

end Vault.Rebalance
