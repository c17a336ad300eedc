import Vault.Health.ScanEffects
import Vault.Recovery.Certification
import Vault.Worker.Tasks

/-! What one polled heartbeat does to its node and to the rest of the tables. A node that is `UNAVAILABLE` when it
is polled is reconciled; every other one takes the heartbeat only. -/

namespace Vault.Worker

open Vault.Common Vault.Metadata Vault.Storage Vault.Lib Vault.Lib.Script Vault.Lib.Transaction
open Vault.Health Vault.Recovery

/-- Only rows of node `n` may differ. -/
structure Apart (n : String) (db view : Db) : Prop where
  registered : Registered view
  versions : view.versions = db.versions
  nodes : ∀ m, m ≠ n → view.node? m = db.node? m
  replicas : ∀ r : Replica, r.nodeId ≠ n → (r ∈ view.replicas ↔ r ∈ db.replicas)

section Apart

variable {n : String} {db view view' : Db}

lemma Apart.refl (h : Registered db) : Apart n db db := ⟨h, rfl, fun _ _ => rfl, fun _ _ => Iff.rfl⟩

lemma Apart.trans (h : Apart n db view) (h' : Apart n view view') : Apart n db view' :=
  ⟨h'.registered, h'.versions.trans h.versions, fun m hm => (h'.nodes m hm).trans (h.nodes m hm),
    fun r hr => (h'.replicas r hr).trans (h.replicas r hr)⟩

lemma Apart.of_passed {visits : List Visit} (hp : Passed db visits view) (h : Registered db)
    (hvisits : ∀ v ∈ visits, v.replica ∈ db.replicas ∧ v.replica.nodeId = n) : Apart n db view := by
  refine ⟨h.of_same (by rw [hp.nodes]) hp.ids, hp.versions, fun m _ => hp.node? m, fun r hr => ⟨fun hrow => ?_, fun hrow => ?_⟩⟩
  · rcases hp.row h.replicaIds hrow with ⟨v, hv, -, hplace, -⟩ | ⟨hold, -⟩
    · exact absurd ((congrArg Prod.snd hplace).trans (hvisits v hv).2) hr
    · exact hold
  · refine hp.untouched r hrow fun v hv he => hr ?_
    rw [← Table.eq_of_key h.replicaIds (hvisits v hv).1 hrow he]
    exact (hvisits v hv).2

lemma Apart.amendNode (h : Apart n db view) {f : StorageNode → StorageNode} (hf : ∀ m, (f m).nodeId = m.nodeId) :
    Apart n db (view.amendNode n f) := by
  refine ⟨h.registered.amendNode _ hf, h.versions, fun m hm => ?_, h.replicas⟩
  exact (Table.lookup_amend_ne (f := f) hf _ hm).trans (h.nodes m hm)

lemma Apart.version? (h : Apart n db view) (i : UUID) : view.version? i = db.version? i := by
  unfold Db.version?
  rw [h.versions]

lemma Apart.mem_knownReplicas (h : Apart n db view) {m : String} (hm : m ≠ n) {r : Replica} :
    r ∈ knownReplicas view m ↔ r ∈ knownReplicas db m := by
  simp only [Recovery.mem_knownReplicas, h.version?]
  constructor
  · rintro ⟨hr, rfl, hrest⟩
    exact ⟨(h.replicas r hm).mp hr, rfl, hrest⟩
  · rintro ⟨hr, rfl, hrest⟩
    exact ⟨(h.replicas r hm).mpr hr, rfl, hrest⟩

end Apart

/-- The pass over the known replicas of a node; if it finds nothing wrong, `P` holds. -/
def Examined (db : Db) (n : String) (log : List Integrity.Report) (P : Prop) : Prop :=
  ∃ visits : List Visit, (∀ r ∈ knownReplicas db n, ∃ v ∈ visits, v.replica = r) ∧
    (∀ v ∈ visits, v.replica ∈ knownReplicas db n ∧ v.Sound ∧ ∃ report ∈ log, Borne db n report v) ∧
    ((∀ v ∈ visits, v.finding = .healthy) → P)

lemma Examined.mono {db : Db} {n : String} {log log' : List Integrity.Report} {P P' : Prop} (h : Examined db n log P)
    (hlog : log ⊆ log') (hP : P → P') : Examined db n log' P' := by
  obtain ⟨visits, hall, hborne, hp⟩ := h
  refine ⟨visits, hall, fun v hv => ?_, fun hf => hP (hp hf)⟩
  obtain ⟨hknown, hsound, report, hreport, hb⟩ := hborne v hv
  exact ⟨hknown, hsound, report, hlog hreport, hb⟩

/-- The row of the node as a heartbeat of time `t` leaves it. -/
def HeardIn (view : Db) (n : String) (state : NodeState) (t : Time) : Prop :=
  ∃ row ∈ view.node? n, row.status = state ∧ row.lastHeartbeatAt = some t

section Heartbeats

variable {ρ : Type} {A : ∀ β : Type, Request β → β → Prop} {p : Point Db (ρ × List Integrity.Report) Note} {rf : ℕ}
  {payload : HeartbeatPayload} {node : StorageNode}

/-- The tables in which known replicas and versions are looked up. -/
lemma Examined.of_same {db view : Db} {n : String} {log : List Integrity.Report} {P : Prop}
    (hrows : ∀ r, r ∈ view.replicas ↔ r ∈ db.replicas) (hversions : view.versions = db.versions)
    (h : Examined view n log P) : Examined db n log P := by
  have hversion : ∀ i, view.version? i = db.version? i := fun i => by
    unfold Db.version?
    rw [hversions]
  have hknown : ∀ r, r ∈ knownReplicas view n ↔ r ∈ knownReplicas db n := fun r => by
    simp only [Recovery.mem_knownReplicas, hrows, hversion]
  obtain ⟨visits, hall, hborne, hp⟩ := h
  refine ⟨visits, fun r hr => hall r ((hknown r).mpr hr), fun v hv => ?_, hp⟩
  obtain ⟨hmem, hsound, report, hreport, hnode, hid, hfound⟩ := hborne v hv
  exact ⟨(hknown _).mp hmem, hsound, report, hreport, hnode, hid, hversion _ ▸ hfound⟩

lemma Surveyed.examined {db view : Db} {n : String} {before log : List Integrity.Report} {visits : List Visit} {P : Prop}
    (h : Surveyed db n before log visits view) (hP : (∀ v ∈ visits, v.finding = .healthy) → P) : Examined db n log P := by
  refine ⟨visits, fun r hr => ?_, fun v hv => ⟨h.mem hv, h.sound v hv, h.recorded.visited hv⟩, hP⟩
  rw [← h.known] at hr
  exact List.mem_map.mp hr

end Heartbeats

end Vault.Worker
