import Vault.Lib.Rules
import Vault.Repair.Scheduling

/-! How a schedule ends. It finds enough healthy replicas, hands back an active job of the target that it chose,
creates a job for that target, or is refused; all that it may write is the new job. -/

namespace Vault.Repair

open Vault.Common Vault.Metadata Vault.Lib Vault.Lib.Script Vault.Lib.Transaction Vault.Lib.Transaction.Tx
open Vault.Storage (Job Request Note)

section Choices

variable {db : Db} {i : UUID} {v : Version} {s : Replica} {t : StorageNode}

lemma mem_healthySources : s ∈ healthySources db i ↔
    s ∈ db.replicas ∧ s.versionId = i ∧ s.status = .healthy ∧ s.checksum.isSome = true := by
  simp [healthySources, healthyReplicas, and_assoc]

lemma mem_candidates : t ∈ candidates db v ↔
    t ∈ db.nodes ∧ Fits v t ∧ ∀ r ∈ db.replicas, r.versionId = v.versionId → r.nodeId ≠ t.nodeId := by
  simp [candidates, List.mem_mergeSort, List.mem_filter]

/-- A target that is no preferred one holds no replica of the version. -/
lemma source_ne_candidate (hv : db.version? i = some v) (hs : s ∈ healthySources db i) (ht : t ∈ candidates db v) :
    s.nodeId ≠ t.nodeId := by
  obtain ⟨hs, hi, -⟩ := mem_healthySources.mp hs
  have hid : v.versionId = i := Table.lookup_key hv
  exact (mem_candidates.mp ht).2.2 s hs (hi.trans hid.symm)

lemma targetForVersion_of_none {preferred : Option Replica} (h : preferredNode db v preferred = none) :
    targetForVersion db v preferred = (candidates db v).head? := by
  rw [targetForVersion, h, Option.none_or]

/-- A preferred replica on a node that is not healthy is not preferred. -/
lemma preferredNode_of_not_healthy {preferred : Replica} {node : StorageNode}
    (hn : db.node? preferred.nodeId = some node) (hs : node.status ≠ .healthy) :
    preferredNode db v (some preferred) = none := by
  simp [preferredNode, hn, Fits, hs]

lemma activeJob_some {target : String} {job : RepairJob} (h : activeJob db i target = some job) :
    job ∈ db.repairJobs ∧ job.versionId = i ∧ job.targetNodeId = target ∧ Active job.status := by
  refine ⟨List.mem_of_find?_eq_some h, ?_⟩
  simpa using List.find?_some h

end Choices

/-- The job that `create_job` inserts. -/
def newJob (db : Db) (versionId : UUID) (source : Replica) (target : StorageNode) (reason : Arg String) : RepairJob :=
  { repairId := db.newUuid, versionId := versionId, sourceNodeId := source.nodeId, targetNodeId := target.nodeId,
    reason := jobReason reason }

/-- How a schedule ends, and the tables after it. -/
inductive Scheduling (db : Db) (i : UUID) (rf : ℤ) (reason : Arg String) (preferred : Option Replica) :
    Except Failure (Option RepairJob) → Db → Prop
  | enough : rf ≤ (healthyReplicas db i).length → preferred = none → Scheduling db i rf reason preferred (.ok none) db
  | reused (v : Version) (s : Replica) (t : StorageNode) (job : RepairJob) : db.version? i = some v →
      (preferred = none → (healthyReplicas db i).length < rf) → (healthySources db i).head? = some s →
      targetForVersion db v preferred = some t → activeJob db i t.nodeId = some job →
      Scheduling db i rf reason preferred (.ok (some job)) db
  | created (v : Version) (s : Replica) (t : StorageNode) : db.version? i = some v →
      (preferred = none → (healthyReplicas db i).length < rf) → (healthySources db i).head? = some s →
      targetForVersion db v preferred = some t → activeJob db i t.nodeId = none →
      Scheduling db i rf reason preferred (.ok (some (newJob db i s t reason)))
        (insertRepairJob (newJob db i s t reason) db)
  | failed (e : Failure) : (scheduleForVersion i rf reason preferred).run db = .error e →
      Scheduling db i rf reason preferred (.error e) db

section Runs

variable {db db' : Db} {i : UUID} {rf : ℤ} {reason : Arg String} {preferred : Option Replica} {e : Failure}

lemma scheduleForVersion_none (h : (scheduleForVersion i rf reason preferred).run db = .ok (none, db')) :
    rf ≤ (healthyReplicas db i).length ∧ preferred = none := by
  rw [scheduleForVersion, bind_require, bind_read, bind_demand] at h
  obtain ⟨-, v, -, h⟩ := h
  rw [run_ite, bind_demand] at h
  rcases h with ⟨henough, -⟩ | ⟨-, s, -, h⟩
  · exact henough
  obtain ⟨t, -, h⟩ := bind_demand.mp h
  split at h
  · cases h
  · obtain ⟨d, db₁, -, h⟩ := run_bind.mp h
    cases h

lemma scheduleForVersion_some {d : Dispatch}
    (h : (scheduleForVersion i rf reason preferred).run db = .ok (some d, db')) :
    ∃ v s t, db.version? i = some v ∧ (preferred = none → (healthyReplicas db i).length < rf) ∧
      (healthySources db i).head? = some s ∧ targetForVersion db v preferred = some t ∧
      ((∃ job, activeJob db i t.nodeId = some job ∧ d = .reused job) ∨
        activeJob db i t.nodeId = none ∧ d = .created (newJob db i s t reason)) := by
  rw [scheduleForVersion, bind_require, bind_read, bind_demand] at h
  obtain ⟨-, v, hv, h⟩ := h
  rw [run_ite, bind_demand] at h
  rcases h with ⟨-, h⟩ | ⟨hfew, s, hs, h⟩
  · cases h
  obtain ⟨t, ht, h⟩ := bind_demand.mp h
  have hless : preferred = none → ((healthyReplicas db i).length : ℤ) < rf := by
    intro hp
    by_contra hle
    exact hfew ⟨not_lt.mp hle, hp⟩
  refine ⟨v, s, t, hv, hless, hs, ht, ?_⟩
  split at h
  · next job hactive =>
    cases h
    exact Or.inl ⟨job, hactive, rfl⟩
  · next hactive =>
    obtain ⟨d, db₁, hc, h⟩ := run_bind.mp h
    cases h
    rw [createJob, bind_read, bind_require] at hc
    obtain ⟨-, hc⟩ := hc
    rw [hactive] at hc
    simp only [bind_demand, bind_write] at hc
    obtain ⟨_, -, _, -, hc⟩ := hc
    cases hc
    exact Or.inr ⟨hactive, rfl⟩

/-- Without a preferred node a schedule is refused by a `VaultError` only. -/
lemma scheduleForVersion_error (hrf : 1 ≤ rf)
    (hpref : ∀ v, db.version? i = some v → preferredNode db v preferred = none)
    (h : (scheduleForVersion i rf reason preferred).run db = .error e) : ∃ x, e = .vault x := by
  simp only [scheduleForVersion, bind_error, require_error, run_require, read_error, run_read, demand_error,
    run_demand, false_or, Prod.mk.injEq] at h
  rcases h with ⟨hno, -⟩ | ⟨_, _, ⟨-, -, rfl⟩, _, _, ⟨rfl, rfl⟩, h⟩
  · exact absurd hrf hno
  rcases h with ⟨-, rfl⟩ | ⟨v, _, ⟨hv, rfl⟩, h⟩
  · exact ⟨_, rfl⟩
  split_ifs at h with henough
  · exact absurd h pure_error
  simp only [bind_error, demand_error, run_demand] at h
  rcases h with ⟨-, rfl⟩ | ⟨source, _, ⟨hs, rfl⟩, ⟨-, rfl⟩ | ⟨target, _, ⟨ht, rfl⟩, h⟩⟩
  · exact ⟨_, rfl⟩
  · exact ⟨_, rfl⟩
  rw [targetForVersion_of_none (hpref v hv)] at ht
  have hne := source_ne_candidate hv (List.mem_of_head? hs) (List.mem_of_head? ht)
  split at h
  · exact absurd h pure_error
  · rename_i hactive
    simp only [createJob, bind_error, pure_error, and_false, exists_false, or_false, read_error, run_read,
      false_or, require_error, run_require, Prod.mk.injEq] at h
    rcases h with ⟨_, _, ⟨rfl, rfl⟩, ⟨hsame, -⟩ | ⟨_, _, ⟨-, -, rfl⟩, h⟩⟩
    · exact absurd (fun he => absurd he hne) hsame
    · simp only [hactive, bind_error, demand_error, run_demand, write_error, pure_error, and_false, exists_false,
        or_false] at h
      rcases h with ⟨-, rfl⟩ | ⟨_, _, ⟨-, rfl⟩, ⟨-, rfl⟩⟩
      · exact ⟨_, rfl⟩
      · exact ⟨_, rfl⟩

/-- A job that comes out of a schedule is in the tables and active. -/
lemma Scheduling.job_active {job : RepairJob} (h : Scheduling db i rf reason preferred (.ok (some job)) db') :
    job ∈ db'.repairJobs ∧ job.versionId = i ∧ Active job.status := by
  cases h with
  | reused v s t job hv hless hs ht hactive =>
    obtain ⟨hmem, hi, -, hstatus⟩ := activeJob_some hactive
    exact ⟨hmem, hi, hstatus⟩
  | created v s t hv hless hs ht hactive =>
    exact ⟨List.mem_append_right _ (List.mem_singleton.mpr rfl), rfl, Or.inl rfl⟩

lemma Scheduling.preferred_none (h : Scheduling db i rf reason preferred (.ok none) db') : preferred = none := by
  cases h with
  | enough _ hnone => exact hnone

lemma Scheduling.vault (h : Scheduling db i rf reason preferred (.error e) db') (hrf : 1 ≤ rf)
    (hpref : ∀ v, db.version? i = some v → preferredNode db v preferred = none) : ∃ x, e = .vault x := by
  cases h with
  | failed _ hrun => exact scheduleForVersion_error hrf hpref hrun

end Runs

variable {ρ : Type} {answers : ∀ {β : Type}, Request β → ρ → β → ρ → Prop}

/-- A schedule asks nothing of the world. -/
lemma wp_schedule (i : UUID) (rf : ℤ) (reason : Arg String) (preferred : Option Replica) (p : Point Db ρ Note) :
    wp answers (fun r q => Scheduling p.session.view i rf reason preferred r q.session.view ∧ q.world = p.world)
      (schedule i rf reason preferred) p := by
  refine wp_bind.mpr (wp_query.mpr ?_)
  dsimp only [Post.seq_ok]
  split
  · next e he => exact wp_raise.mpr ⟨.failed e he, rfl⟩
  · next he =>
    obtain ⟨henough, hnone⟩ := scheduleForVersion_none he
    exact wp_pure.mpr ⟨.enough henough hnone, rfl⟩
  · next job _ he =>
    obtain ⟨v, s, t, hv, hless, hs, ht, ⟨_, hactive, hd⟩ | ⟨-, hd⟩⟩ := scheduleForVersion_some he
    · cases hd
      exact wp_pure.mpr ⟨.reused v s t job hv hless hs ht hactive, rfl⟩
    · cases hd
  · next job _ he =>
    obtain ⟨v, s, t, hv, hless, hs, ht, ⟨_, -, hd⟩ | ⟨hactive, hd⟩⟩ := scheduleForVersion_some he
    · cases hd
    · cases hd
      exact wp_bind.mpr (wp_save.mpr (wp_pure.mpr ⟨.created v s t hv hless hs ht hactive, rfl⟩))

end Vault.Repair
