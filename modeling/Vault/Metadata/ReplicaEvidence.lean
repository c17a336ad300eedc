import Vault.Metadata.VersionNumbers

/-! A `HEALTHY` replica carries the measurement that made it healthy. Rows enter `HEALTHY` only
through `mark_replica_healthy`, and every other change of a row is an edge of the replica table. -/

namespace Vault.Metadata

open Vault.Common Vault.Lib

def Replica.Evidenced (db : Db) (r : Replica) : Prop :=
  ∃ v, db.version? r.versionId = some v ∧ r.checksum = some v.checksum ∧
    r.sizeBytes = some v.sizeBytes ∧ r.lastVerifiedAt ≠ none

def Replica.place (r : Replica) : UUID × String := (r.versionId, r.nodeId)

structure ReplicaInv (db : Db) : Prop where
  ids : (db.replicas.map Replica.replicaId).Nodup
  fresh : ∀ r ∈ db.replicas, r.replicaId.n < db.nextId
  places : (db.replicas.map Replica.place).Nodup
  evidence : ∀ r ∈ db.replicas, r.status = .healthy → r.Evidenced db

structure RowsFollow (db : Db) (op : Op) (db' : Db) : Prop where
  healthy : ∀ r ∈ db.replicas, ∀ s ∈ db'.replicas, s.replicaId = r.replicaId →
    r.status ≠ .healthy → s.status = .healthy → (r.status = .copying ∨ r.status = .repairing) ∧
      ∃ now c z, op = .markReplicaHealthy now (.value r.replicaId) c z
  allowed : ∀ r ∈ db.replicas, ∀ s ∈ db'.replicas, s.replicaId = r.replicaId →
    s.status ≠ r.status → s.status ≠ .healthy → s.status ∈ replicaStateTransitions r.status
  created : ∀ s ∈ db'.replicas, (∀ r ∈ db.replicas, r.replicaId ≠ s.replicaId) → s.status = .pending
  failed : ∀ r ∈ db.replicas, r.status = .failed → r ∈ db'.replicas

def RowFollows (op : Op) (r s : Replica) : Prop :=
  s.status = r.status ∧ (r.status = .failed → s = r) ∨
    s.status ∈ replicaStateTransitions r.status ∨
    s.status = .healthy ∧ (r.status = .copying ∨ r.status = .repairing) ∧
      ∃ now c z, op = .markReplicaHealthy now (.value r.replicaId) c z

lemma RowFollows.refl (op : Op) (r : Replica) : RowFollows op r r := Or.inl ⟨rfl, fun _ => rfl⟩

lemma RowsFollow.of_map {db db' : Db} {op : Op} (h : ReplicaInv db) {g : Replica → Replica}
    (hg : ∀ r, (g r).replicaId = r.replicaId) (hr : db'.replicas = db.replicas.map g)
    (hf : ∀ r ∈ db.replicas, RowFollows op r (g r)) : RowsFollow db op db' := by
  have hrow : ∀ r ∈ db.replicas, ∀ s ∈ db'.replicas, s.replicaId = r.replicaId → s = g r := by
    intro r hm s hs he
    rw [hr] at hs
    obtain ⟨q, hq, rfl⟩ := List.mem_map.mp hs
    rw [hg] at he
    rw [Table.eq_of_key h.ids hq hm he]
  constructor
  case healthy =>
    intro r hm s hs he hne hh
    obtain rfl := hrow r hm s hs he
    rcases hf r hm with ⟨hst, -⟩ | ht | ⟨-, hst, hop⟩
    · exact absurd (hst ▸ hh) hne
    · exact absurd (hh ▸ ht) (healthy_not_mem_replicaStateTransitions _)
    · exact ⟨hst, hop⟩
  case allowed =>
    intro r hm s hs he hne hh
    obtain rfl := hrow r hm s hs he
    rcases hf r hm with ⟨hst, -⟩ | ht | ⟨hst, -⟩
    · exact absurd hst hne
    · exact ht
    · exact absurd hst hh
  case created =>
    intro s hs hn
    rw [hr] at hs
    obtain ⟨q, hq, rfl⟩ := List.mem_map.mp hs
    exact absurd (hg q).symm (hn q hq)
  case failed =>
    intro r hm hst
    have hgr : g r = r := by
      rcases hf r hm with ⟨-, hsame⟩ | ht | ⟨-, hfrom, -⟩
      · exact hsame hst
      · simp [hst, replicaStateTransitions] at ht
      · simp [hst] at hfrom
    rw [hr]
    exact List.mem_map.mpr ⟨r, hm, hgr⟩

lemma RowsFollow.of_append {db db' : Db} {op : Op} (h : ReplicaInv db) {new : List Replica}
    (hr : db'.replicas = db.replicas ++ new) (hp : ∀ r ∈ new, r.status = .pending)
    (hid : ∀ r ∈ db.replicas, ∀ s ∈ new, s.replicaId ≠ r.replicaId) : RowsFollow db op db' := by
  have hrow : ∀ r ∈ db.replicas, ∀ s ∈ db'.replicas, s.replicaId = r.replicaId → s = r := by
    intro r hm s hs he
    rw [hr, List.mem_append] at hs
    rcases hs with hs | hs
    · exact Table.eq_of_key h.ids hs hm he
    · exact absurd he (hid r hm s hs)
  constructor
  case healthy =>
    intro r hm s hs he hne hh
    exact absurd (hrow r hm s hs he ▸ hh) hne
  case allowed =>
    intro r hm s hs he hne
    exact absurd (congrArg Replica.status (hrow r hm s hs he)) hne
  case created =>
    intro s hs hn
    rw [hr, List.mem_append] at hs
    rcases hs with hs | hs
    · exact absurd rfl (hn s hs)
    · exact hp s hs
  case failed =>
    intro r hm _
    rw [hr]
    exact List.mem_append_left _ hm

lemma RowsFollow.of_remove {db : Db} {op : Op} (h : ReplicaInv db) {r : Replica}
    (hr : r ∈ db.replicas) (hst : r.status ≠ .failed) : RowsFollow db op (deleteReplica r.replicaId db) := by
  have hrow : ∀ q ∈ db.replicas, ∀ s ∈ (deleteReplica r.replicaId db).replicas,
      s.replicaId = q.replicaId → s = q := by
    intro q hq s hs he
    exact Table.eq_of_key h.ids (Table.mem_remove.mp hs).1 hq he
  constructor
  case healthy =>
    intro q hq s hs he hne hh
    exact absurd (hrow q hq s hs he ▸ hh) hne
  case allowed =>
    intro q hq s hs he hne
    exact absurd (congrArg Replica.status (hrow q hq s hs he)) hne
  case created =>
    intro s hs hn
    exact absurd rfl (hn s (Table.mem_remove.mp hs).1)
  case failed =>
    intro q hq hf
    refine Table.mem_remove.mpr ⟨hq, fun he => hst ?_⟩
    rw [← Table.eq_of_key h.ids hq hr he]
    exact hf

lemma ReplicaInv.empty : ReplicaInv {} where
  ids := List.nodup_nil
  fresh := by simp
  places := List.nodup_nil
  evidence := by simp

def VersionsKept (db db' : Db) : Prop :=
  ∀ i v, db.version? i = some v →
    ∃ w, db'.version? i = some w ∧ w.checksum = v.checksum ∧ w.sizeBytes = v.sizeBytes

lemma VersionsKept.frame {db db' : Db} (hv : db'.versions = db.versions) : VersionsKept db db' := by
  intro i v h
  refine ⟨v, ?_, rfl, rfl⟩
  simpa only [Db.version?, hv] using h

lemma VersionsKept.amend (db : Db) (i : UUID) {f : Version → Version}
    (hi : ∀ v, (f v).versionId = v.versionId) (hc : ∀ v, (f v).checksum = v.checksum)
    (hs : ∀ v, (f v).sizeBytes = v.sizeBytes) : VersionsKept db (db.amendVersion i f) := by
  intro j v h
  refine ⟨if v.versionId = i then f v else v, ?_, ?_⟩
  · simp only [Db.version?, Db.amendVersion, Table.lookup_amend hi] at h ⊢
    rw [h]
    rfl
  · split_ifs
    · exact ⟨hc v, hs v⟩
    · exact ⟨rfl, rfl⟩

lemma Replica.Evidenced.mono {db db' : Db} (hk : VersionsKept db db') {r : Replica}
    (h : r.Evidenced db) : r.Evidenced db' := by
  obtain ⟨v, hv, hc, hs, ht⟩ := h
  obtain ⟨w, hw, hwc, hws⟩ := hk _ v hv
  exact ⟨w, hw, hwc ▸ hc, hws ▸ hs, ht⟩

lemma ReplicaInv.frame {db db' : Db} (h : ReplicaInv db) (hr : db'.replicas = db.replicas)
    (hk : VersionsKept db db') (hn : db.nextId ≤ db'.nextId) : ReplicaInv db' where
  ids := hr ▸ h.ids
  fresh r hm := (h.fresh r (hr ▸ hm)).trans_le hn
  places := hr ▸ h.places
  evidence r hm hs := (h.evidence r (hr ▸ hm) hs).mono hk

lemma ReplicaInv.map {db db' : Db} (h : ReplicaInv db) {g : Replica → Replica}
    (hid : ∀ r, (g r).replicaId = r.replicaId) (hpl : ∀ r, (g r).place = r.place)
    (hr : db'.replicas = db.replicas.map g) (hv : db'.versions = db.versions)
    (hn : db'.nextId = db.nextId)
    (he : ∀ r ∈ db.replicas, (g r).status = .healthy → (g r).Evidenced db) : ReplicaInv db' where
  ids := by
    rw [hr, List.map_map, show Replica.replicaId ∘ g = Replica.replicaId from funext hid]
    exact h.ids
  fresh s hs := by
    rw [hr] at hs
    obtain ⟨r, hm, rfl⟩ := List.mem_map.mp hs
    rw [hid, hn]
    exact h.fresh r hm
  places := by
    rw [hr, List.map_map, show Replica.place ∘ g = Replica.place from funext hpl]
    exact h.places
  evidence s hs hst := by
    rw [hr] at hs
    obtain ⟨r, hm, rfl⟩ := List.mem_map.mp hs
    exact (he r hm hst).mono (.frame hv)

lemma ReplicaInv.insert {db : Db} (h : ReplicaInv db) {versionId : UUID} {nodeId : String}
    (hfree : db.replicaOn? versionId nodeId = none) : ReplicaInv (insertReplica versionId nodeId db) where
  ids := by
    apply Table.nodup_append_fresh h.ids
    intro r hr he
    exact absurd (h.fresh r hr) (by simp [he, Db.newUuid])
  fresh r hr := by
    simp only [insertReplica, List.mem_append, List.mem_singleton] at hr ⊢
    rcases hr with hr | rfl
    · exact (h.fresh r hr).trans (Nat.lt_succ_self _)
    · exact Nat.lt_succ_self _
  places := by
    apply Table.nodup_append_fresh h.places
    exact fun r hr => Table.lookup_eq_none.mp hfree r hr
  evidence r hr hs := by
    simp only [insertReplica, List.mem_append, List.mem_singleton] at hr
    rcases hr with hr | rfl
    · exact (h.evidence r hr hs).mono (.frame rfl)
    · cases hs

lemma ReplicaInv.remove {db : Db} (h : ReplicaInv db) (i : UUID) : ReplicaInv (deleteReplica i db) where
  ids := Table.nodup_remove h.ids i
  fresh r hr := h.fresh r (Table.mem_remove.mp hr).1
  places := Table.nodup_remove h.places i
  evidence r hr hs := (h.evidence r (Table.mem_remove.mp hr).1 hs).mono (.frame rfl)

lemma replicaOn?_insertReplica {db : Db} {versionId : UUID} {n m : String} (hne : n ≠ m) :
    (insertReplica versionId n db).replicaOn? versionId m = db.replicaOn? versionId m := by
  apply Table.lookup_concat_of_ne
  simp [hne]

lemma ReplicaInv.insertAll {db : Db} (h : ReplicaInv db) {versionId : UUID} {nodeIds : List String}
    (hnd : nodeIds.Nodup) (hfree : ∀ n ∈ nodeIds, db.replicaOn? versionId n = none) :
    ReplicaInv (nodeIds.foldl (fun db n => insertReplica versionId n db) db) := by
  induction nodeIds generalizing db with
  | nil => exact h
  | cons n nodeIds ih =>
    obtain ⟨hn, hnd⟩ := List.nodup_cons.mp hnd
    apply ih (h.insert (hfree n List.mem_cons_self)) hnd
    intro m hm
    have hne : n ≠ m := fun he => hn (he ▸ hm)
    rw [replicaOn?_insertReplica hne]
    exact hfree m (List.mem_cons_of_mem _ hm)

lemma insertReplicas_rows (versionId : UUID) (nodeIds : List String) (db : Db) :
    ∃ new, (nodeIds.foldl (fun db n => insertReplica versionId n db) db).replicas = db.replicas ++ new ∧
      ∀ r ∈ new, r.status = .pending ∧ db.nextId ≤ r.replicaId.n := by
  induction nodeIds generalizing db with
  | nil => exact ⟨[], (List.append_nil _).symm, by simp⟩
  | cons n nodeIds ih =>
    obtain ⟨new, he, hp⟩ := ih (insertReplica versionId n db)
    refine ⟨{ replicaId := db.newUuid, versionId := versionId, nodeId := n } :: new, ?_, ?_⟩
    · simpa [insertReplica] using he
    · intro r hr
      rcases List.mem_cons.mp hr with rfl | hr
      · exact ⟨rfl, le_rfl⟩
      · exact ⟨(hp r hr).1, (Nat.le_succ _).trans (hp r hr).2⟩

section Amend

variable {db : Db} {op : Op}

lemma ReplicaInv.amend (h : ReplicaInv db) {r : Replica} (hr : db.replica? r.replicaId = some r)
    {f : Replica → Replica} (hid : ∀ r, (f r).replicaId = r.replicaId)
    (hpl : ∀ r, (f r).place = r.place) (hev : (f r).status = .healthy → (f r).Evidenced db) :
    ReplicaInv (db.amendReplica r.replicaId f) := by
  refine h.map (g := fun s => if s.replicaId = r.replicaId then f s else s) ?_ ?_ rfl rfl rfl ?_
  · intro s
    split_ifs
    · exact hid s
    · rfl
  · intro s
    split_ifs
    · exact hpl s
    · rfl
  · intro s hs hst
    split_ifs at hst ⊢ with he
    · rw [Table.eq_of_key h.ids hs (Table.lookup_mem hr) he] at hst ⊢
      exact hev hst
    · exact h.evidence s hs hst

lemma RowsFollow.of_amend (h : ReplicaInv db) {r : Replica} (hr : db.replica? r.replicaId = some r)
    {f : Replica → Replica} (hid : ∀ r, (f r).replicaId = r.replicaId) (hf : RowFollows op r (f r)) :
    RowsFollow db op (db.amendReplica r.replicaId f) := by
  refine .of_map h (g := fun s => if s.replicaId = r.replicaId then f s else s) ?_ rfl ?_
  · intro s
    split_ifs
    · exact hid s
    · rfl
  · intro s hs
    split_ifs with he
    · rw [Table.eq_of_key h.ids hs (Table.lookup_mem hr) he]
      exact hf
    · exact .refl op s

end Amend

lemma Changed.replicaInv {db db' : Db} {op : Op} (hc : Changed db op db') (h : ReplicaInv db) :
    ReplicaInv db' := by
  cases hc with
  | createObject => exact h.frame rfl (.frame rfl) (Nat.le_succ _)
  | createVersion =>
    refine h.frame rfl (fun i v hv => ⟨v, ?_, rfl, rfl⟩) (Nat.le_succ _)
    exact Table.lookup_append_of_some hv _
  | @commitVersion now =>
    exact h.frame rfl (.amend db _ (f := Version.commit now) (fun _ => rfl) (fun _ => rfl)
      (fun _ => rfl)) le_rfl
  | transitionObjectState => exact h.frame rfl (.frame rfl) le_rfl
  | failVersion =>
    exact h.frame rfl (.amend db _ (f := Version.fail) (fun _ => rfl) (fun _ => rfl) (fun _ => rfl))
      le_rfl
  | createReplica hfree => exact h.insert hfree
  | createReplicas hnd hfree => exact h.insertAll hnd hfree
  | @setReplicaStates is ids state hne ht =>
    refine h.map (g := fun r => if r.replicaId ∈ ids then r.enter state else r) ?_ ?_ rfl rfl rfl ?_
    · intro r
      split_ifs <;> rfl
    · intro r
      split_ifs <;> rfl
    · intro r hr hst
      split_ifs at hst ⊢
      · exact absurd hst hne
      · exact h.evidence r hr hst
  | @setReplicaState r state hne hr ht =>
    exact h.amend hr (fun _ => rfl) (fun _ => rfl) (fun hst => absurd hst hne)
  | recordReplicaVerification hr hv hs =>
    exact h.amend hr (fun _ => rfl) (fun _ => rfl) (fun _ => ⟨_, hv, rfl, rfl, by simp [Replica.verify]⟩)
  | markReplicaHealthy hr hv hs =>
    exact h.amend hr (fun _ => rfl) (fun _ => rfl) (fun _ => ⟨_, hv, rfl, rfl, by simp [Replica.verify]⟩)
  | removeReplica => exact h.remove _
  | nodes hn =>
    obtain ⟨nodes, k, hk, rfl⟩ := hn
    exact h.frame rfl (.frame rfl) hk

lemma RowsFollow.frame {db db' : Db} {op : Op} (h : ReplicaInv db) (hr : db'.replicas = db.replicas) :
    RowsFollow db op db' :=
  .of_map h (g := id) (fun _ => rfl) (by simpa using hr) (fun r _ => .refl op r)

lemma Changed.rowsFollow {db db' : Db} {op : Op} (hc : Changed db op db') (h : ReplicaInv db) :
    RowsFollow db op db' := by
  cases hc with
  | createReplica =>
    refine .of_append h rfl (by simp) (fun r hr s hs he => ?_)
    simp only [List.mem_singleton] at hs
    exact absurd (h.fresh r hr) (by simp [← he, hs, Db.newUuid])
  | @createReplicas ns versionId nodeIds =>
    obtain ⟨new, hnew, hp⟩ := insertReplicas_rows versionId nodeIds db
    refine .of_append h hnew (fun r hr => (hp r hr).1) (fun r hr s hs he => ?_)
    have hlt := h.fresh r hr
    have hle := (hp s hs).2
    rw [he] at hle
    omega
  | @setReplicaStates is ids state hne ht =>
    refine .of_map h (g := fun r => if r.replicaId ∈ ids then r.enter state else r) ?_ rfl ?_
    · intro r
      split_ifs <;> rfl
    · intro r hr
      split_ifs with hi
      · rcases ht r hr hi with he | he
        · exact he ▸ .refl _ r
        · exact Or.inr (Or.inl he)
      · exact .refl _ r
  | @setReplicaState r state hne hr ht => exact .of_amend h hr (fun _ => rfl) (Or.inr (Or.inl ht))
  | recordReplicaVerification hr hv hs =>
    refine .of_amend h hr (fun _ => rfl) (Or.inl ⟨rfl, fun hf => ?_⟩)
    rw [hs] at hf
    cases hf
  | @markReplicaHealthy now c z r v hr hv hs =>
    exact .of_amend h hr (fun _ => rfl) (Or.inr (Or.inr ⟨rfl, hs, now, c, z, rfl⟩))
  | @removeReplica r hr hs =>
    refine .of_remove h (Table.lookup_mem hr) (fun hf => ?_)
    simp [hf] at hs
  | nodes hn =>
    obtain ⟨nodes, k, hk, rfl⟩ := hn
    exact .frame h rfl
  | _ => exact .frame h rfl

lemma replicaInv_run (ops : List Op) : ReplicaInv (run {} ops) :=
  run_invariant ReplicaInv.empty (fun db op h => (step_changed db op).replicaInv h) ops

lemma rowsFollow_history {db : Db} (h : ReplicaInv db) (ops : List Op) :
    ∀ e ∈ history db ops, RowsFollow e.before e.op e.after := by
  induction ops generalizing db with
  | nil => simp [history]
  | cons op ops ih =>
    intro e he
    rcases List.mem_cons.mp he with rfl | he
    · exact (step_changed db op).rowsFollow h
    · exact ih ((step_changed db op).replicaInv h) e he

theorem replica_evidence_along_runs (ops : List Op) :
    (∀ r ∈ (run {} ops).replicas, r.status = .healthy → r.Evidenced (run {} ops)) ∧
      ((run {} ops).replicas.map Replica.place).Nodup ∧
      ∀ e ∈ history {} ops, RowsFollow e.before e.op e.after :=
  ⟨(replicaInv_run ops).evidence, (replicaInv_run ops).places, rowsFollow_history ReplicaInv.empty ops⟩

end Vault.Metadata
