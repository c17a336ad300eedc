import Vault.Metadata.WellFormed
import Vault.Repair.Execution

/-! What the first step of an execution does to the replica table: it leaves it alone, or it puts
the target row into `REPAIRING`. -/

namespace Vault.Repair

open Vault.Common Vault.Metadata Vault.Storage Vault.Lib Vault.Lib.Transaction
open Vault.Lib.Transaction.Tx

structure Retargeted (db : Db) (target : Replica) (db' : Db) : Prop where
  rows : ∀ r, r ∈ db'.replicas ↔ r ∈ db.replicas ∧ r.place ≠ target.place ∨ r = target
  repairing : target.status = .repairing
  before : ∀ r ∈ db.replicas, r.place = target.place →
    r.replicaId = target.replicaId ∧ r.status ≠ .healthy
  fresh : (∃ r ∈ db.replicas, r.place = target.place) ∨ db.nextId ≤ target.replicaId.n
  wellFormed : db'.WellFormed
  nextId : db.nextId ≤ db'.nextId
  versions : db'.versions = db.versions
  nodes : db'.nodes = db.nodes
  objects : db'.objects = db.objects

lemma Retargeted.amend {db : Db} (h : db.WellFormed) {r₀ : Replica} (hr₀ : r₀ ∈ db.replicas)
    (hs : r₀.status ≠ .healthy) :
    Retargeted db (r₀.enter .repairing) (db.amendReplica r₀.replicaId (Replica.enter .repairing)) where
  rows := mem_amendReplica h hr₀
  repairing := rfl
  before r hr hp := by
    rw [h.eq_of_place hr hr₀ hp]
    exact ⟨rfl, hs⟩
  fresh := Or.inl ⟨r₀, hr₀, rfl⟩
  wellFormed := h.amend _ (fun _ => rfl) (fun _ => rfl)
  nextId := le_rfl
  versions := rfl
  nodes := rfl
  objects := rfl

lemma Retargeted.same {db : Db} (h : db.WellFormed) {r₀ : Replica} (hr₀ : r₀ ∈ db.replicas)
    (hs : r₀.status = .repairing) : Retargeted db r₀ db where
  rows r := by
    constructor
    · intro hr
      by_cases hp : r.place = r₀.place
      · exact Or.inr (h.eq_of_place hr hr₀ hp)
      · exact Or.inl ⟨hr, hp⟩
    · rintro (⟨hr, -⟩ | rfl)
      · exact hr
      · exact hr₀
  repairing := hs
  before r hr hp := by
    rw [h.eq_of_place hr hr₀ hp, hs]
    exact ⟨rfl, by decide⟩
  fresh := Or.inl ⟨r₀, hr₀, rfl⟩
  wellFormed := h
  nextId := le_rfl
  versions := rfl
  nodes := rfl
  objects := rfl

lemma Retargeted.insert {db : Db} (h : db.WellFormed) {i : UUID} {n : String}
    (hfree : db.replicaOn? i n = none) :
    Retargeted db { replicaId := db.newUuid, versionId := i, nodeId := n, status := .repairing }
      ((insertReplica i n db).amendReplica db.newUuid (Replica.enter .repairing)) := by
  have hnone : ∀ r ∈ db.replicas, r.place ≠ (i, n) := fun r hr => Table.lookup_eq_none.mp hfree r hr
  have hmem : ({ replicaId := db.newUuid, versionId := i, nodeId := n } : Replica) ∈
      (insertReplica i n db).replicas := List.mem_append_right _ (List.mem_singleton_self _)
  have hrows := mem_amendReplica (h.insert hfree) hmem (f := Replica.enter .repairing)
  constructor
  case rows =>
    intro r
    rw [hrows r]
    simp only [insertReplica, List.mem_append, List.mem_singleton]
    constructor
    · rintro (⟨hr | rfl, hp⟩ | rfl)
      · exact Or.inl ⟨hr, hp⟩
      · exact absurd rfl hp
      · exact Or.inr rfl
    · rintro (⟨hr, hp⟩ | rfl)
      · exact Or.inl ⟨Or.inl hr, hp⟩
      · exact Or.inr rfl
  case repairing => rfl
  case before => exact fun r hr hp => absurd hp (hnone r hr)
  case fresh => exact Or.inr le_rfl
  case wellFormed => exact (h.insert hfree).amend _ (fun _ => rfl) (fun _ => rfl)
  case nextId => exact Nat.le_succ _
  case versions => rfl
  case nodes => rfl
  case objects => rfl

lemma replicaForTarget_ok {job : RepairJob} {db db' : Db} {r : Replica} (hw : db.WellFormed)
    (h : (replicaForTarget job).run db = .ok (r, db')) :
    Retargeted db r db' ∧ r.versionId = job.versionId ∧
      (strip job.targetNodeId = job.targetNodeId → r.nodeId = job.targetNodeId) := by
  simp only [replicaForTarget, findOrCreateReplica] at h
  obtain ⟨r₀, db₁, hget, hrest⟩ := run_bind.mp h
  obtain ⟨hne, hset⟩ := bind_require.mp hrest
  rw [bind_read] at hget
  cases hon : db.replicaOn? job.versionId job.targetNodeId with
  | some r₁ =>
    simp only [hon, run_pure, Prod.mk.injEq] at hget
    obtain ⟨rfl, rfl⟩ := hget
    have hmem : r₀ ∈ db₁.replicas := Table.lookup_mem hon
    have hplace : r₀.place = (job.versionId, job.targetNodeId) := Table.lookup_key hon
    rw [Replica.place, Prod.mk.injEq] at hplace
    obtain ⟨hpv, hpn⟩ := hplace
    rw [run_ite, bind_require, run_pure, Prod.mk.injEq] at hset
    rcases hset with ⟨-, hset⟩ | ⟨-, hs, rfl, rfl⟩
    · obtain ⟨r₂, hr₂, rfl, ⟨hs, rfl⟩ | rfl⟩ := setReplicaState_row hset
      · obtain rfl := hw.eq_of_id (Table.lookup_mem hr₂) hmem (Table.lookup_key hr₂)
        refine ⟨?_, hpv, fun _ => hpn⟩
        have : r₂.enter .repairing = r₂ := by
          rw [← hs]
          rfl
        rw [this]
        exact .same hw hmem hs
      · obtain rfl := hw.eq_of_id (Table.lookup_mem hr₂) hmem (Table.lookup_key hr₂)
        exact ⟨.amend hw hmem hne, hpv, fun _ => hpn⟩
    · exact ⟨.same hw hmem hs, hpv, fun _ => hpn⟩
  | none =>
    simp only [hon] at hget
    obtain ⟨versionId, nodeId, hv, hn, hfree, -, rfl, rfl⟩ := createReplica_ok hget
    cases hv
    obtain rfl := validateNodeId_ok hn
    simp only [List.mem_cons, true_or, if_true] at hset
    obtain ⟨r₂, hr₂, rfl, ⟨hs, rfl⟩ | rfl⟩ := setReplicaState_row hset
    · obtain rfl := (hw.insert hfree).eq_of_id (Table.lookup_mem hr₂)
        (List.mem_append_right _ (List.mem_singleton_self _)) (Table.lookup_key hr₂)
      cases hs
    · obtain rfl := (hw.insert hfree).eq_of_id (Table.lookup_mem hr₂)
        (List.mem_append_right _ (List.mem_singleton_self _)) (Table.lookup_key hr₂)
      exact ⟨.insert hw hfree, rfl, id⟩

lemma Retargeted.jobs {db db' : Db} {target : Replica} (h : Retargeted db target db')
    (i : UUID) (f : RepairJob → RepairJob) : Retargeted db target (db'.amendRepairJob i f) where
  rows := h.rows
  repairing := h.repairing
  before := h.before
  fresh := h.fresh
  wellFormed := h.wellFormed.frame rfl rfl le_rfl
  nextId := h.nextId
  versions := h.versions
  nodes := h.nodes
  objects := h.objects

/-- How the first step ends when it is not rolled back. -/
inductive Opened (db : Db) (repairId : UUID) : Begun → Db → Prop
  | closed {b : Begun} (f : RepairJob → RepairJob) : (∀ e, b ≠ .running e) →
      Opened db repairId b (db.amendRepairJob repairId f)
  | refused {e : Failure} {db' : Db} {job : RepairJob} {source target : Replica} :
      Retargeted db target db' → db.repairJob? repairId = some job → source ∈ db.replicas →
      source.versionId = target.versionId → source.status = .healthy →
      target.versionId = job.versionId → Opened db repairId (.raised e) db'
  | running {db' : Db} {job : RepairJob} {version : Version} {source target : Replica} :
      Retargeted db target db' → db.repairJob? repairId = some job →
      db.version? job.versionId = some version → source ∈ db.replicas →
      source.versionId = target.versionId → source.status = .healthy →
      target.place = (job.versionId, job.targetNodeId) →
      Opened db repairId (.running { job := job.start, version, replicaId := target.replicaId }) db'

lemma amendRepairJob_id (db : Db) (i : UUID) : db.amendRepairJob i id = db := by
  simp [Db.amendRepairJob, Table.amend]

lemma healthySource_of_not_isNone {db : Db} {job : RepairJob}
    (h : ¬((healthySource db job).bind Replica.checksum).isNone) :
    ∃ r ∈ db.replicas, r.versionId = job.versionId ∧ r.status = .healthy := by
  cases hf : healthySource db job with
  | none => simp [hf] at h
  | some r =>
    have hsat := List.find?_some hf
    simp only [decide_eq_true_eq] at hsat
    exact ⟨r, List.mem_of_find?_eq_some hf, hsat.1, hsat.2.2⟩

lemma beginJob_ok {m : ℕ} {i : UUID} {db db' : Db} {b : Begun} (hw : db.WellFormed)
    (h : (beginJob m i).run db = .ok (b, db')) : Opened db i b db' := by
  rw [beginJob, bind_read, bind_demand] at h
  obtain ⟨job, hjob, h⟩ := h
  rw [run_ite, bind_demand] at h
  rcases h with ⟨-, h⟩ | ⟨-, version, hv, h⟩
  · cases h
    have hc : Opened db i (.returned job) (db.amendRepairJob i id) := .closed id (by simp)
    rwa [amendRepairJob_id] at hc
  rw [run_ite, bind_write] at h
  rcases h with ⟨-, h⟩ | ⟨hsource, h⟩
  · cases h
    exact .closed _ (by simp)
  obtain ⟨r, db₁, hr, h⟩ := run_bind.mp h
  obtain ⟨ht, hver, hnode⟩ := replicaForTarget_ok hw hr
  obtain ⟨source, hmem, hsv, hsh⟩ := healthySource_of_not_isNone hsource
  rw [bind_read] at h
  split at h
  · cases h
    exact .refused (ht.jobs _ _) hjob hmem (hsv.trans hver.symm) hsh hver
  · cases h
    exact .refused (ht.jobs _ _) hjob hmem (hsv.trans hver.symm) hsh hver
  · next target source' htarget _ =>
    rw [run_ite, bind_write, bind_write] at h
    rcases h with ⟨-, h⟩ | ⟨-, h⟩
    · cases h
      exact .refused (ht.jobs _ _) hjob hmem (hsv.trans hver.symm) hsh hver
    · cases h
      have hnm : target ∈ db.nodes := ht.nodes ▸ Table.lookup_mem htarget
      have hstrip := hw.nodeIds target hnm
      rw [Table.lookup_key htarget] at hstrip
      refine .running (ht.jobs _ _) hjob hv hmem (hsv.trans hver.symm) hsh ?_
      rw [Replica.place, hver, hnode hstrip]

end Vault.Repair
