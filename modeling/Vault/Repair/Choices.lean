import Mathlib.Data.String.Basic
import Vault.Lib.Sorting
import Vault.Repair.Loop

/-! What the rounds of a repair choose. A filled node is no candidate any more and the others keep their order, so the
rounds take the candidates one after the other. The source is the one that was first before the repair, or a replica
that the repair has made. -/

namespace Vault.Repair

open Vault.Common Vault.Metadata Vault.Storage Vault.Lib Vault.Lib.Sorting

section Orders

variable {a b c : StorageNode} {r s t : Replica}

lemma roomierFirst_iff : roomierFirst a b = true ↔ LargerFirst StorageNode.freeBytes StorageNode.nodeId a b := by
  simp [roomierFirst, LargerFirst]

lemma roomierFirst_trans (a b c : StorageNode) (hab : roomierFirst a b = true) (hbc : roomierFirst b c = true) :
    roomierFirst a c = true :=
  roomierFirst_iff.mpr (LargerFirst.trans (roomierFirst_iff.mp hab) (roomierFirst_iff.mp hbc))

lemma roomierFirst_total (a b : StorageNode) : (roomierFirst a b || roomierFirst b a) = true := by
  rw [Bool.or_eq_true, roomierFirst_iff, roomierFirst_iff]
  exact largerFirst_total StorageNode.freeBytes StorageNode.nodeId a b

lemma roomierFirst_antisymm (hab : roomierFirst a b = true) (hba : roomierFirst b a = true) : a.nodeId = b.nodeId :=
  LargerFirst.antisymm (roomierFirst_iff.mp hab) (roomierFirst_iff.mp hba)

/-- The time of a replica that was never verified comes before every other. -/
lemma newerFirst_iff : newerFirst r s = true ↔
    (r.lastVerifiedAt = none ∧ (s.lastVerifiedAt = none → r.nodeId ≤ s.nodeId)) ∨
      ∃ t u, r.lastVerifiedAt = some t ∧ s.lastVerifiedAt = some u ∧ (u < t ∨ t = u ∧ r.nodeId ≤ s.nodeId) := by
  unfold newerFirst
  cases hr : r.lastVerifiedAt <;> cases hs : s.lastVerifiedAt <;> simp

lemma newerFirst_trans (r s t : Replica) (hrs : newerFirst r s = true) (hst : newerFirst s t = true) :
    newerFirst r t = true := by
  rw [newerFirst_iff] at hrs hst ⊢
  rcases hrs with ⟨hr, hrs⟩ | ⟨x, y, hr, hs, hrs⟩
  · refine Or.inl ⟨hr, fun ht => ?_⟩
    rcases hst with ⟨hs, hst⟩ | ⟨_, _, -, ht', -⟩
    · exact (hrs hs).trans (hst ht)
    · cases ht.symm.trans ht'
  · rcases hst with ⟨hs', -⟩ | ⟨y', z, hs', ht, hst⟩
    · cases hs.symm.trans hs'
    · cases hs.symm.trans hs'
      refine Or.inr ⟨x, z, hr, ht, ?_⟩
      rcases hrs with hrs | ⟨rfl, hrs⟩
      · rcases hst with hst | ⟨rfl, -⟩
        · exact Or.inl (hst.trans hrs)
        · exact Or.inl hrs
      · rcases hst with hst | ⟨rfl, hst⟩
        · exact Or.inl hst
        · exact Or.inr ⟨rfl, hrs.trans hst⟩

lemma newerFirst_total (r s : Replica) : (newerFirst r s || newerFirst s r) = true := by
  rw [Bool.or_eq_true, newerFirst_iff, newerFirst_iff]
  cases hr : r.lastVerifiedAt with
  | none =>
    cases hs : s.lastVerifiedAt with
    | none => exact (le_total r.nodeId s.nodeId).imp (fun h => Or.inl ⟨rfl, fun _ => h⟩) fun h => Or.inl ⟨rfl, fun _ => h⟩
    | some u => exact Or.inl (Or.inl ⟨rfl, by simp⟩)
  | some t =>
    cases hs : s.lastVerifiedAt with
    | none => exact Or.inr (Or.inl ⟨rfl, by simp⟩)
    | some u =>
      rcases lt_trichotomy u t with h | h | h
      · exact Or.inl (Or.inr ⟨t, u, rfl, rfl, Or.inl h⟩)
      · exact (le_total r.nodeId s.nodeId).imp (fun hn => Or.inr ⟨t, u, rfl, rfl, Or.inr ⟨h.symm, hn⟩⟩)
          fun hn => Or.inr ⟨u, t, rfl, rfl, Or.inr ⟨h, hn⟩⟩
      · exact Or.inr (Or.inr ⟨u, t, rfl, rfl, Or.inl h⟩)

lemma newerFirst_antisymm (hrs : newerFirst r s = true) (hsr : newerFirst s r = true) : r.nodeId = s.nodeId := by
  rw [newerFirst_iff] at hrs hsr
  rcases hrs with ⟨hr, hrs⟩ | ⟨x, y, hr, hs, hrs⟩
  · rcases hsr with ⟨hs, hsr⟩ | ⟨_, _, -, hr', -⟩
    · exact le_antisymm (hrs hs) (hsr hr)
    · cases hr.symm.trans hr'
  · rcases hsr with ⟨hs', -⟩ | ⟨y', x', hs', hr', hsr⟩
    · cases hs.symm.trans hs'
    · cases hs.symm.trans hs'
      cases hr.symm.trans hr'
      rcases hrs with hrs | ⟨rfl, hrs⟩
      · rcases hsr with hsr | ⟨rfl, -⟩
        · exact absurd hrs (lt_asymm hsr)
        · exact absurd hrs (lt_irrefl _)
      · rcases hsr with hsr | ⟨-, hsr⟩
        · exact absurd hsr (lt_irrefl _)
        · exact le_antisymm hrs hsr

end Orders

section Candidates

variable {db₀ db : Db} {v : UUID} {version : Version} {touched : List String} {extra : List Replica}

lemma candidates_nodup (hnodes : db.NodeKeys) (version : Version) :
    ((candidates db version).map StorageNode.nodeId).Nodup := by
  have hperm := List.mergeSort_perm (db.nodes.filter fun n => Fits version n ∧
    ∀ r ∈ db.replicas, r.versionId = version.versionId → r.nodeId ≠ n.nodeId) roomierFirst
  exact (hperm.map StorageNode.nodeId).nodup_iff.mpr
    (hnodes.distinct.sublist (List.filter_sublist.map StorageNode.nodeId))

lemma Extended.candidates (h : Extended db₀ v touched extra db) (hnodes : db₀.NodeKeys) (hid : version.versionId = v) :
    Repair.candidates db version =
      (Repair.candidates db₀ version).filter (fun n => n.nodeId ∉ extra.map Replica.nodeId) := by
  have hsame : db.nodes.filter (fun n => Fits version n ∧
      ∀ r ∈ db.replicas, r.versionId = version.versionId → r.nodeId ≠ n.nodeId) =
      (db₀.nodes.filter (fun n => Fits version n ∧
        ∀ r ∈ db₀.replicas, r.versionId = version.versionId → r.nodeId ≠ n.nodeId)).filter
        (fun n => n.nodeId ∉ extra.map Replica.nodeId) := by
    rw [h.nodes, h.rows, List.filter_filter]
    refine List.filter_congr fun n _ => ?_
    rw [← Bool.decide_and, decide_eq_decide]
    constructor
    · rintro ⟨hfits, hfree⟩
      refine ⟨fun hm => ?_, hfits, fun r hr => hfree r (List.mem_append_left _ hr)⟩
      obtain ⟨r, hr, hn⟩ := List.mem_map.mp hm
      exact hfree r (List.mem_append_right _ hr) ((h.version r hr).trans hid.symm) hn
    · rintro ⟨hm, hfits, hfree⟩
      refine ⟨hfits, fun r hr hv => ?_⟩
      rcases List.mem_append.mp hr with hr | hr
      · exact hfree r hr hv
      · exact fun hn => hm (hn ▸ List.mem_map_of_mem hr)
  rw [Repair.candidates, hsame, Repair.candidates]
  refine (filter_mergeSort roomierFirst_trans roomierFirst_total (fun a ha b hb hab hba => ?_) _).symm
  exact Table.eq_of_key hnodes.distinct (List.mem_of_mem_filter ha) (List.mem_of_mem_filter hb)
    (roomierFirst_antisymm hab hba)

/-- The rounds take the candidates one after the other. -/
lemma Extended.candidates_drop (h : Extended db₀ v touched extra db) (hnodes : db₀.NodeKeys)
    (hid : version.versionId = v) {k : ℕ}
    (hextra : extra.map Replica.nodeId = ((Repair.candidates db₀ version).take k).map StorageNode.nodeId) :
    Repair.candidates db version = (Repair.candidates db₀ version).drop k := by
  rw [h.candidates hnodes hid, hextra]
  have hnodup := candidates_nodup hnodes version
  have hsplit := List.take_append_drop k (Repair.candidates db₀ version)
  rw [← hsplit, List.map_append] at hnodup
  have hgone : ((Repair.candidates db₀ version).take k).filter (fun n => n.nodeId ∉
      ((Repair.candidates db₀ version).take k).map StorageNode.nodeId) = [] :=
    List.filter_eq_nil_iff.mpr fun n hn => by
      rw [decide_eq_true_eq, not_not]
      exact List.mem_map_of_mem hn
  have hleft : ((Repair.candidates db₀ version).drop k).filter (fun n => n.nodeId ∉
      ((Repair.candidates db₀ version).take k).map StorageNode.nodeId) = (Repair.candidates db₀ version).drop k :=
    List.filter_eq_self.mpr fun n hn => by
      rw [decide_eq_true_eq]
      exact fun hm => List.disjoint_of_nodup_append hnodup hm (List.mem_map_of_mem hn)
  calc (Repair.candidates db₀ version).filter (fun n => n.nodeId ∉
        ((Repair.candidates db₀ version).take k).map StorageNode.nodeId)
      = ((Repair.candidates db₀ version).take k).filter (fun n => n.nodeId ∉
          ((Repair.candidates db₀ version).take k).map StorageNode.nodeId) ++
        ((Repair.candidates db₀ version).drop k).filter (fun n => n.nodeId ∉
          ((Repair.candidates db₀ version).take k).map StorageNode.nodeId) := by rw [← List.filter_append, hsplit]
    _ = (Repair.candidates db₀ version).drop k := by rw [hgone, hleft, List.nil_append]

end Candidates

section Sources

variable {db₀ db : Db} {v : UUID} {touched : List String} {extra : List Replica} {s : Replica}

/-- The source of a repair: the `HEALTHY` row with a checksum that was verified last. -/
lemma firstSource_iff (hw : db.WellFormed) : (healthySources db v).head? = some s ↔
    s ∈ healthyReplicas db v ∧ s.checksum.isSome = true ∧
      ∀ r ∈ healthyReplicas db v, r.checksum.isSome = true → newerFirst s r = true := by
  refine head?_filter_mergeSort newerFirst_trans newerFirst_total fun r hr s hs hrs hsr => ?_
  simp only [healthyReplicas, List.mem_filter, decide_eq_true_eq] at hr hs
  refine hw.eq_of_place hr.1 hs.1 ?_
  rw [Replica.place, Replica.place, hr.2.1, hs.2.1, newerFirst_antisymm hrs hsr]

/-- A replica that was there before is first only if it was first before. -/
lemma Extended.firstSource (h : Extended db₀ v touched extra db) (hw : db₀.WellFormed)
    (hextra : ∀ r ∈ extra, r.status = .healthy) (hs : (healthySources db v).head? = some s) :
    s ∈ extra ∨ (healthySources db₀ v).head? = some s := by
  obtain ⟨hm, hsum, hfirst⟩ := (firstSource_iff h.wellFormed).mp hs
  rw [h.healthyReplicas hextra] at hm hfirst
  rcases List.mem_append.mp hm with hm | hm
  · exact Or.inr ((firstSource_iff hw).mpr ⟨hm, hsum, fun r hr => hfirst r (List.mem_append_left _ hr)⟩)
  · exact Or.inl hm

/-- When the clock is behind, the source stays what it was. -/
lemma Extended.firstSource_behind (h : Extended db₀ v touched extra db) (hw : db₀.WellFormed)
    (hextra : ∀ r ∈ extra, r.status = .healthy)
    (hbehind : ∀ r ∈ extra, ∃ t, r.lastVerifiedAt = some t ∧
      ∀ s ∈ Repair.healthyReplicas db₀ v, ∀ u, s.lastVerifiedAt = some u → t < u)
    (hs : (healthySources db₀ v).head? = some s) : (healthySources db v).head? = some s := by
  obtain ⟨hm, hsum, hfirst⟩ := (firstSource_iff hw).mp hs
  refine (firstSource_iff h.wellFormed).mpr ?_
  rw [h.healthyReplicas hextra]
  refine ⟨List.mem_append_left _ hm, hsum, fun r hr hsum' => ?_⟩
  rcases List.mem_append.mp hr with hr | hr
  · exact hfirst r hr hsum'
  · obtain ⟨t, ht, hlt⟩ := hbehind r hr
    rw [newerFirst_iff]
    cases hu : s.lastVerifiedAt with
    | none => exact Or.inl ⟨rfl, by simp [ht]⟩
    | some u => exact Or.inr ⟨u, t, rfl, ht, Or.inl (hlt s hm u hu)⟩

end Sources

end Vault.Repair
