import Vault.Integrity.Verification
import Vault.Lib.Rules
import Vault.Metadata.WellFormed
import Vault.Repair.Outcomes
import Vault.Storage.Measurement

/-! What a scan of a node finds. A `VERIFY` call is answered from the content of the node's disk. The scan ends
at the first replica that gives no measurement or whose repair cannot be scheduled, and the replicas after it
are not looked at. -/

namespace Vault.Integrity

open Vault.Common Vault.Metadata Vault.Storage Vault.Lib Vault.Lib.Script Vault.Lib.Transaction.Tx

/-- The directories of a version on a node. -/
abbrev Disks := String → UUID → Option Dir

def remote (sha256 : Bytes → Checksum) (disks : Disks) (db : Db) (nodeId : String) (versionId : UUID) :
    Except ClientError Blob :=
  match db.version? versionId with
  | some v => measureRemote sha256 (versionKey v) (disks nodeId versionId)
  | none => .error notFound

def sought (db : Db) (nodeId : String) : List Replica :=
  byReplicaId ((committedOn db nodeId).filter (fun r => r.status = .healthy))

/-- The stored bytes are those of the version, and of the replica's record where it has one. -/
def Sane (sha256 : Bytes → Checksum) (disks : Disks) (db : Db) (r : Replica) : Prop :=
  ∃ v ∈ db.version? r.versionId, Intact sha256 v (disks r.nodeId r.versionId) ∧
    r.checksum.getD v.checksum = v.checksum ∧ r.sizeBytes.getD v.sizeBytes = v.sizeBytes

def Damaged (sha256 : Bytes → Checksum) (disks : Disks) (db : Db) (r : Replica) : Prop :=
  ∀ v ∈ db.version? r.versionId, ¬Intact sha256 v (disks r.nodeId r.versionId)

def Measured (disks : Disks) (db : Db) (r : Replica) : Prop :=
  ∃ v ∈ db.version? r.versionId, ∃ dir ∈ disks r.nodeId r.versionId, dir.Measurable (versionKey v)

/-- A repair of the replica can be scheduled: another healthy replica can serve as a source, and there is a
node to write to. -/
def Schedulable (replicationFactor : ℕ) (db : Db) (r : Replica) : Prop :=
  1 ≤ replicationFactor ∧
    (∃ s ∈ db.replicas, s.versionId = r.versionId ∧ s.nodeId ≠ r.nodeId ∧ s.status = .healthy ∧
      s.checksum.isSome = true) ∧
    ∃ v ∈ db.version? r.versionId, (Repair.targetForVersion db v (some r)).isSome = true

/-- The scan goes on after the replica. -/
def Passes (sha256 : Bytes → Checksum) (disks : Disks) (replicationFactor : ℕ) (db : Db) (r : Replica) : Prop :=
  Measured disks db r ∧ (Sane sha256 disks db r ∨ Schedulable replicationFactor db r)

section Scheduling

variable {db : Db} {i : UUID} {rf : ℤ} {reason : Arg String} {r : Replica} {v : Version}

lemma scheduleForVersion_runs (hrf : 1 ≤ rf) (hv : db.version? i = some v) {s : Replica} {t : StorageNode}
    (hs : (Repair.healthySources db i).head? = some s) (ht : Repair.targetForVersion db v (some r) = some t)
    (hne : s.nodeId ≠ t.nodeId) (hsn : (db.node? s.nodeId).isSome = true)
    (htn : (db.node? t.nodeId).isSome = true) :
    ∃ out, (Repair.scheduleForVersion i rf reason (some r)).run db = .ok out := by
  obtain ⟨sn, hsn⟩ := Option.isSome_iff_exists.mp hsn
  obtain ⟨tn, htn⟩ := Option.isSome_iff_exists.mp htn
  cases ha : Repair.activeJob db i t.nodeId with
  | some job =>
    refine ⟨(some (.reused job), db), ?_⟩
    simp [Repair.scheduleForVersion, hrf, hv, hs, ht, ha]
  | none =>
    let job : RepairJob :=
      { repairId := db.newUuid, versionId := i, sourceNodeId := s.nodeId, targetNodeId := t.nodeId,
        reason := Repair.jobReason reason }
    refine ⟨(some (.created job), Repair.insertRepairJob job db), ?_⟩
    simp [Repair.scheduleForVersion, Repair.createJob, hrf, hv, hs, ht, ha, hne, hsn, htn, job]

lemma scheduleForVersion_conditions {out : Option Repair.Dispatch × Db}
    (h : (Repair.scheduleForVersion i rf reason (some r)).run db = .ok out) (hv : db.version? i = some v) :
    1 ≤ rf ∧ Repair.healthySources db i ≠ [] ∧ (Repair.targetForVersion db v (some r)).isSome = true := by
  rw [Repair.scheduleForVersion, bind_require, bind_read, bind_demand] at h
  obtain ⟨hrf, v', hv', h⟩ := h
  cases hv.symm.trans hv'
  rw [run_ite, bind_demand] at h
  rcases h with ⟨hc, -⟩ | ⟨-, s, hs, h⟩
  · simp at hc
  obtain ⟨t, ht, -⟩ := bind_demand.mp h
  refine ⟨hrf, ?_, by simp [ht]⟩
  intro hnil
  simp [hnil] at hs

end Scheduling

/-- What the schema promises of the replica rows: identifiers and places are distinct, and every row stands on
a registered node. -/
structure Keyed (db : Db) : Prop where
  ids : (db.replicas.map Replica.replicaId).Nodup
  places : (db.replicas.map Replica.place).Nodup
  registered : ∀ r ∈ db.replicas, (db.node? r.nodeId).isSome = true

def identity (r : Replica) : UUID × UUID × String := (r.replicaId, r.versionId, r.nodeId)

/-- What a scan has not changed: of the rows on the node only those that are still to come are as they were. -/
structure Scanning (db : Db) (nodeId : String) (rest : List Replica) (view : Db) : Prop where
  versions : view.versions = db.versions
  nodes : view.nodes = db.nodes
  rows : view.replicas.map identity = db.replicas.map identity
  untouched : ∀ r ∈ db.replicas, r.nodeId ≠ nodeId ∨ r ∈ rest → r ∈ view.replicas

section Scanning

variable {db view : Db} {n : String} {r : Replica} {rest : List Replica}

lemma Scanning.start (db : Db) (n : String) (rest : List Replica) : Scanning db n rest db :=
  ⟨rfl, rfl, rfl, fun _ hr _ => hr⟩

lemma Scanning.ids (h : Scanning db n rest view) (hk : Keyed db) :
    (view.replicas.map Replica.replicaId).Nodup := by
  have hids := congrArg (List.map Prod.fst) h.rows
  simp only [List.map_map, Function.comp_def, identity] at hids
  have hnodup := hk.ids
  change (db.replicas.map fun r => r.replicaId).Nodup at hnodup
  change (view.replicas.map fun r => r.replicaId).Nodup
  rw [hids]
  exact hnodup

lemma Scanning.origin (h : Scanning db n rest view) {s : Replica} (hs : s ∈ view.replicas) :
    ∃ q ∈ db.replicas, q.replicaId = s.replicaId ∧ q.versionId = s.versionId ∧ q.nodeId = s.nodeId := by
  have hmem : identity s ∈ db.replicas.map identity := h.rows ▸ List.mem_map_of_mem hs
  obtain ⟨q, hq, he⟩ := List.mem_map.mp hmem
  simp only [identity, Prod.mk.injEq] at he
  exact ⟨q, hq, he⟩

lemma Scanning.image (h : Scanning db n rest view) {q : Replica} (hq : q ∈ db.replicas) :
    ∃ s ∈ view.replicas, s.replicaId = q.replicaId ∧ s.versionId = q.versionId ∧ s.nodeId = q.nodeId := by
  have hmem : identity q ∈ view.replicas.map identity := h.rows ▸ List.mem_map_of_mem hq
  obtain ⟨s, hs, he⟩ := List.mem_map.mp hmem
  simp only [identity, Prod.mk.injEq] at he
  exact ⟨s, hs, he⟩

lemma Scanning.replica? (h : Scanning db n (r :: rest) view) (hk : Keyed db) (hr : r ∈ db.replicas) :
    view.replica? r.replicaId = some r :=
  Table.lookup_of_mem (h.ids hk) (h.untouched r hr (Or.inr List.mem_cons_self))

/-- The row that was looked at changes its status or its record. -/
lemma Scanning.amend (h : Scanning db n (r :: rest) view) (hk : Keyed db) (hr : r ∈ db.replicas)
    (hn : r.nodeId = n) (hfresh : r ∉ rest) {f : Replica → Replica} (hf : ∀ q, identity (f q) = identity q) :
    Scanning db n rest (view.amendReplica r.replicaId f) where
  versions := h.versions
  nodes := h.nodes
  rows := (Table.map_amend identity hf view.replicas).trans h.rows
  untouched q hq hrest := by
    have hne : q ≠ r := by
      rintro rfl
      exact hrest.elim (fun h => h hn) hfresh
    have hview := h.untouched q hq (hrest.imp_right (List.mem_cons_of_mem _))
    refine Table.mem_amend.mpr ⟨q, hview, if_neg fun he => hne ?_⟩
    exact Table.eq_of_key hk.ids hq hr he

lemma Scanning.frame (h : Scanning db n rest view) {view' : Db} (hv : view'.versions = view.versions)
    (hn : view'.nodes = view.nodes) (hr : view'.replicas = view.replicas) : Scanning db n rest view' where
  versions := hv.trans h.versions
  nodes := hn.trans h.nodes
  rows := hr ▸ h.rows
  untouched := hr ▸ h.untouched

lemma Scanning.mono {rest' : List Replica} (h : Scanning db n rest view) (hsub : ∀ q ∈ rest', q ∈ rest) :
    Scanning db n rest' view :=
  ⟨h.versions, h.nodes, h.rows, fun q hq hq' => h.untouched q hq (hq'.imp_right (hsub q))⟩

lemma Scanning.targetForVersion (h : Scanning db n rest view) (v : Version) (preferred : Option Replica) :
    Repair.targetForVersion view v preferred = Repair.targetForVersion db v preferred := by
  have hnode : ∀ m, view.node? m = db.node? m := by
    intro m
    rw [Db.node?, h.nodes]
    rfl
  have hcandidates : Repair.candidates view v = Repair.candidates db v := by
    unfold Repair.candidates
    rw [h.nodes]
    congr 1
    refine List.filter_congr fun m _ => ?_
    simp only [decide_eq_decide]
    refine and_congr_right fun _ => ⟨fun hall q hq hqv => ?_, fun hall s hs hsv => ?_⟩
    · obtain ⟨s, hs, -, hsv, hsn⟩ := h.image hq
      exact hsn ▸ hall s hs (hsv.trans hqv)
    · obtain ⟨q, hq, -, hqv, hqn⟩ := h.origin hs
      exact hqn ▸ hall q hq (hqv.trans hsv)
  unfold Repair.targetForVersion Repair.preferredNode
  rw [hcandidates]
  simp only [hnode]

/-- The view after the row has been marked. -/
def marked (r : Replica) (view : Db) : Db := view.amendReplica r.replicaId (Replica.enter .corrupted)

lemma Scanning.mark (h : Scanning db n (r :: rest) view) (hk : Keyed db) (hr : r ∈ db.replicas)
    (hn : r.nodeId = n) (hfresh : r ∉ rest) : Scanning db n rest (marked r view) :=
  h.amend hk hr hn hfresh fun _ => rfl

lemma status_marked {s : Replica} (hs : s ∈ (marked r view).replicas) (hid : s.replicaId = r.replicaId) :
    s.status = .corrupted := by
  obtain ⟨t, ht, rfl⟩ := Table.mem_amend.mp hs
  split_ifs at hid ⊢ with he
  · rfl
  · exact absurd hid he

/-- Once the row is marked, the sources of its version are the healthy rows on the other nodes. -/
lemma Scanning.mem_sources (h : Scanning db n rest (marked r view)) (hk : Keyed db) (hr : r ∈ db.replicas)
    (hn : r.nodeId = n) {s : Replica} : s ∈ Repair.healthySources (marked r view) r.versionId ↔
      s ∈ db.replicas ∧ s.versionId = r.versionId ∧ s.nodeId ≠ r.nodeId ∧ s.status = .healthy ∧
        s.checksum.isSome = true := by
  rw [Repair.mem_healthySources]
  constructor
  · rintro ⟨hs, hv, hh, hc⟩
    obtain ⟨q, hq, hid, hqv, hqn⟩ := h.origin hs
    have hne : q.nodeId ≠ r.nodeId := by
      intro he
      have hplace : q.place = r.place := Prod.ext (hqv.trans hv) he
      obtain rfl := Table.eq_of_key hk.places hq hr hplace
      rw [status_marked hs hid.symm] at hh
      cases hh
    have hview := h.untouched q hq (Or.inl (hn ▸ hne))
    obtain rfl := Table.eq_of_key (h.ids hk) hview hs hid
    exact ⟨hq, hv, hne, hh, hc⟩
  · rintro ⟨hs, hv, hne, hh, hc⟩
    exact ⟨h.untouched s hs (Or.inl (hn ▸ hne)), hv, hh, hc⟩

lemma targetForVersion_node {v : Version} {t : StorageNode}
    (h : Repair.targetForVersion db v (some r) = some t) :
    t.nodeId = r.nodeId ∨ ∀ s ∈ db.replicas, s.versionId = v.versionId → s.nodeId ≠ t.nodeId := by
  unfold Repair.targetForVersion at h
  cases hp : Repair.preferredNode db v (some r) with
  | some m =>
    rw [hp] at h
    cases h
    obtain ⟨hm, -⟩ := Option.filter_eq_some_iff.mp hp
    exact Or.inl (Table.lookup_key hm)
  | none =>
    rw [hp] at h
    have hmem := List.mem_of_head? h
    simp only [Repair.candidates, List.mem_mergeSort, List.mem_filter, decide_eq_true_eq] at hmem
    exact Or.inr hmem.2.2

lemma targetForVersion_mem {v : Version} {t : StorageNode}
    (h : Repair.targetForVersion db v (some r) = some t) : t ∈ db.nodes := by
  unfold Repair.targetForVersion at h
  cases hp : Repair.preferredNode db v (some r) with
  | some m =>
    rw [hp] at h
    cases h
    obtain ⟨hm, -⟩ := Option.filter_eq_some_iff.mp hp
    exact Table.lookup_mem hm
  | none =>
    rw [hp] at h
    have hmem := List.mem_of_head? h
    simp only [Repair.candidates, List.mem_mergeSort, List.mem_filter] at hmem
    exact hmem.1

lemma node?_isSome {m : StorageNode} (hm : m ∈ db.nodes) : (db.node? m.nodeId).isSome = true := by
  cases hl : db.node? m.nodeId with
  | some _ => rfl
  | none => exact absurd rfl (Table.lookup_eq_none.mp hl m hm)

lemma Scanning.schedules_iff (h : Scanning db n rest (marked r view)) (hk : Keyed db) (hr : r ∈ db.replicas)
    (hn : r.nodeId = n) {v : Version} (hv : db.version? r.versionId = some v) (rf : ℕ) (reason : Arg String) :
    (∃ out, (Repair.scheduleForVersion r.versionId rf reason (some r)).run (marked r view) = .ok out) ↔
      Schedulable rf db r := by
  have hview : (marked r view).version? r.versionId = some v := by
    rw [Db.version?, h.versions]
    exact hv
  have hvid : v.versionId = r.versionId := version?_id hv
  constructor
  · rintro ⟨out, hrun⟩
    obtain ⟨hrf, hsources, htarget⟩ := scheduleForVersion_conditions hrun hview
    obtain ⟨s, hs⟩ := List.exists_mem_of_ne_nil _ hsources
    rw [h.targetForVersion] at htarget
    exact ⟨by exact_mod_cast hrf, ⟨s, (h.mem_sources hk hr hn).mp hs⟩, v, hv, htarget⟩
  · rintro ⟨hrf, ⟨s₀, hs₀⟩, v', hv', htarget⟩
    cases hv.symm.trans hv'
    have hne : Repair.healthySources (marked r view) r.versionId ≠ [] :=
      List.ne_nil_of_mem ((h.mem_sources hk hr hn).mpr hs₀)
    obtain ⟨s, hs⟩ := Option.isSome_iff_exists.mp (List.isSome_head?.mpr hne)
    obtain ⟨t, ht⟩ := Option.isSome_iff_exists.mp htarget
    obtain ⟨hsdb, hsv, hsn, -⟩ := (h.mem_sources hk hr hn).mp (List.mem_of_head? hs)
    have hapart : s.nodeId ≠ t.nodeId := by
      rcases targetForVersion_node ht with he | hfree
      · exact he ▸ hsn
      · exact hfree s hsdb (hsv.trans hvid.symm)
    have hnode : ∀ m, (marked r view).node? m = db.node? m := by
      intro m
      rw [Db.node?, h.nodes]
      rfl
    refine scheduleForVersion_runs (by exact_mod_cast hrf) hview hs ((h.targetForVersion v _).trans ht) hapart ?_ ?_
    · rw [hnode]
      exact hk.registered s hsdb
    · rw [hnode]
      exact node?_isSome (targetForVersion_mem ht)

end Scanning

end Vault.Integrity
