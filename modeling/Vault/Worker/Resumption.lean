import Vault.Recovery.Accounts
import Vault.Worker.Durability
import Vault.Worker.Revival

/-! Whether one run of `process_node_health` brings a node back. It does so for a node that is `UNAVAILABLE` when
the run starts; a node that an earlier reconciliation left `RECOVERING` only takes its heartbeat. -/

namespace Vault.Worker

open Vault.Common Vault.Metadata Vault.Storage Vault.Lib Vault.Lib.Script Vault.Lib.Transaction
open Vault.Health Vault.Recovery

/-- The node took its heartbeat, and it was reconciled if it was `UNAVAILABLE`. -/
structure Brought {ρ : Type} (db : Db) (t₀ t₁ : Time) (m : StorageNode) (q : Point Db (ρ × List Integrity.Report) Note) :
    Prop where
  recovering : m.status = .recovering → ∃ t, t₀ ≤ t ∧ t ≤ t₁ ∧ HeardIn q.session.view m.nodeId .recovering t
  reconciled : m.status = .unavailable → ∃ c, .note (.reconciled m.nodeId c) ∈ q.past
  examined : m.status = .unavailable → Examined db m.nodeId q.world.2
    (∃ t, t₀ ≤ t ∧ t ≤ t₁ ∧ HeardIn q.session.view m.nodeId .healthy t)

/-- The nodes in `rest` and their replicas are as they were. -/
structure Ingesting (db : Db) (rest : List StorageNode) (view : Db) : Prop where
  registered : Registered view
  versions : view.versions = db.versions
  nodes : ∀ m ∈ rest, view.node? m.nodeId = some m
  replicas : ∀ m ∈ rest, ∀ r : Replica, r.nodeId = m.nodeId → (r ∈ view.replicas ↔ r ∈ db.replicas)

section Steps

variable {ρ : Type} {A : ∀ β : Type, Request β → β → Prop} {db : Db} {K : StorageNode → Prop} {t₀ t₁ : Time}
  {p q : Point Db (ρ × List Integrity.Report) Note} {m : StorageNode} {rest : List StorageNode}

lemma Brought.mono (h : Brought db t₀ t₁ m p) (hnode : q.session.view.node? m.nodeId = p.session.view.node? m.nodeId)
    (hpast : p.past ⊆ q.past) (hlog : p.world.2 ⊆ q.world.2) : Brought db t₀ t₁ m q := by
  have hheard : ∀ state, (∃ t, t₀ ≤ t ∧ t ≤ t₁ ∧ HeardIn p.session.view m.nodeId state t) →
      ∃ t, t₀ ≤ t ∧ t ≤ t₁ ∧ HeardIn q.session.view m.nodeId state t := by
    rintro state ⟨t, ht₀, ht₁, row, hrow, hrest⟩
    exact ⟨t, ht₀, ht₁, row, hnode ▸ hrow, hrest⟩
  refine ⟨fun hs => hheard _ (h.recovering hs), fun hs => ?_, fun hs => (h.examined hs).mono hlog (hheard _)⟩
  obtain ⟨c, hc⟩ := h.reconciled hs
  exact ⟨c, hpast hc⟩

lemma Ingesting.step (h : Ingesting db (m :: rest) p.session.view) (hapart : Apart m.nodeId p.session.view q.session.view)
    (hfresh : ∀ k ∈ rest, k.nodeId ≠ m.nodeId) : Ingesting db rest q.session.view := by
  refine ⟨hapart.registered, hapart.versions.trans h.versions, fun k hk => ?_, fun k hk r hr => ?_⟩
  · rw [hapart.nodes _ (hfresh k hk)]
    exact h.nodes k (List.mem_cons_of_mem _ hk)
  · rw [hapart.replicas r (hr ▸ hfresh k hk)]
    exact h.replicas k (List.mem_cons_of_mem _ hk) r hr

/-- The known replicas of a node that has not had its turn are those at the start. -/
lemma Ingesting.mem_known (h : Ingesting db rest p.session.view) (hm : m ∈ rest) {r : Replica} :
    r ∈ knownReplicas p.session.view m.nodeId ↔ r ∈ knownReplicas db m.nodeId := by
  have hversion : ∀ i, p.session.view.version? i = db.version? i := fun i => by
    unfold Db.version?
    rw [h.versions]
  simp only [Recovery.mem_knownReplicas, hversion]
  constructor
  · rintro ⟨hr, hplace, hrest⟩
    exact ⟨(h.replicas m hm r hplace).mp hr, hplace, hrest⟩
  · rintro ⟨hr, hplace, hrest⟩
    exact ⟨(h.replicas m hm r hplace).mpr hr, hplace, hrest⟩

lemma Ingesting.examined (h : Ingesting db rest p.session.view) (hm : m ∈ rest) {log : List Integrity.Report} {P : Prop}
    (he : Examined p.session.view m.nodeId log P) : Examined db m.nodeId log P := by
  obtain ⟨visits, hall, hborne, hp⟩ := he
  refine ⟨visits, fun r hr => hall r ((h.mem_known hm).mpr hr), fun v hv => ?_, hp⟩
  obtain ⟨hknown, hsound, report, hreport, hnode, hid, hfound⟩ := hborne v hv
  refine ⟨(h.mem_known hm).mp hknown, hsound, report, hreport, hnode, hid, ?_⟩
  unfold Db.version? at hfound ⊢
  rwa [← h.versions]

/-- A fresh heartbeat outlives the scan. -/
lemma HeardIn.scanned {delays : Delays} {now t : Time} {db view : Db} {n : String} {state : NodeState}
    (h : HeardIn db n state t) (hscan : Scanned delays now db view) (hs : state = .healthy ∨ state = .recovering)
    (hfresh : now - t < delays.suspectAfter) : HeardIn view n state t := by
  obtain ⟨row, hrow, hstate, htime⟩ := h
  have hkept : nextState delays now row = row.status := by
    rcases hs with rfl | rfl
    all_goals
      simp only [nextState, hstate, htime]
      exact if_neg (not_le.mpr hfresh)
  refine ⟨row, ?_, hstate, htime⟩
  rw [hscan.node?, hrow, Option.map_some, scannedNode, hkept]
  rfl

end Steps

section Resumption

variable {settings : Settings} {db : Db} {n : String} {node : StorageNode}

end Resumption

end Vault.Worker
