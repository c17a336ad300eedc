import Vault.Rebalance.Safety

/-! Draining gives up no durability. Every write of a migration that a drain starts is careful: it takes no `HEALTHY`
row and no row at all from a version unless as many `HEALTHY` rows remain as the replication factor asks for. -/

namespace Vault.Rebalance

open Vault.Common Vault.Metadata Vault.Storage Vault.Lib Vault.Lib.Script Vault.Lib.Transaction
open Vault.Repair (healthyReplicas)

/-- From `db` to `db'` a version loses a row, or a `HEALTHY` one, only if `rf` of its rows are `HEALTHY` afterwards. -/
structure Careful (rf : ℕ) (db db' : Db) : Prop where
  healthy : ∀ v, (healthyReplicas db v).length ≤ (healthyReplicas db' v).length ∨ rf ≤ (healthyReplicas db' v).length
  rows : ∀ r ∈ db.replicas, (∃ r' ∈ db'.replicas, r'.place = r.place) ∨ rf ≤ (healthyReplicas db' r.versionId).length

section Careful

variable {rf : ℕ} {db db' db'' : Db}

lemma Careful.refl (rf : ℕ) (db : Db) : Careful rf db db :=
  ⟨fun _ => Or.inl le_rfl, fun r hr => Or.inl ⟨r, hr, rfl⟩⟩

lemma Careful.kept (h : Careful rf db db') {v : UUID} (hv : rf ≤ (healthyReplicas db v).length) :
    rf ≤ (healthyReplicas db' v).length := (h.healthy v).elim hv.trans id

lemma Careful.trans (h : Careful rf db db') (h' : Careful rf db' db'') : Careful rf db db'' := by
  refine ⟨fun v => ?_, fun r hr => ?_⟩
  · rcases h.healthy v with hle | hrf
    · exact (h'.healthy v).imp_left hle.trans
    · exact Or.inr (h'.kept hrf)
  · rcases h.rows r hr with ⟨r', hr', hplace⟩ | hrf
    · have hversion : r'.versionId = r.versionId := congrArg Prod.fst hplace
      refine (h'.rows r' hr').imp (fun ⟨r'', hr'', hplace'⟩ => ⟨r'', hr'', hplace'.trans hplace⟩) fun hrf => ?_
      rwa [← hversion]
    · exact Or.inr (h'.kept hrf)

/-- The count that the claim of durability is about. -/
lemma Careful.min_le (h : Careful rf db db') (v : UUID) :
    min rf (healthyReplicas db v).length ≤ (healthyReplicas db' v).length :=
  (h.healthy v).elim (fun hle => (min_le_right _ _).trans hle) fun hrf => (min_le_left _ _).trans hrf

lemma Careful.of_replicas (h : db'.replicas = db.replicas) : Careful rf db db' := by
  have hcount : ∀ v, healthyReplicas db' v = healthyReplicas db v := fun v => by rw [healthyReplicas, h]; rfl
  exact ⟨fun v => Or.inl (by rw [hcount]), fun r hr => Or.inl ⟨r, h ▸ hr, rfl⟩⟩

lemma healthy_length_mono (hw : db.WellFormed) {v : UUID}
    (h : ∀ r ∈ healthyReplicas db v, ∃ r' ∈ healthyReplicas db' v, r'.nodeId = r.nodeId) :
    (healthyReplicas db v).length ≤ (healthyReplicas db' v).length := by
  have hsub : (healthyReplicas db v).map Replica.nodeId ⊆ (healthyReplicas db' v).map Replica.nodeId := by
    intro n hn
    obtain ⟨r, hr, rfl⟩ := List.mem_map.mp hn
    obtain ⟨r', hr', hn'⟩ := h r hr
    exact hn' ▸ List.mem_map_of_mem hr'
  simpa using ((nodup_healthyNodes hw v).subperm hsub).length_le

/-- Every row stays in its place, and the `HEALTHY` ones stay `HEALTHY`. -/
lemma Careful.of_rows (hw : db.WellFormed) (h : ∀ r ∈ db.replicas, ∃ r' ∈ db'.replicas, r'.place = r.place ∧
    (r.status = .healthy → r'.status = .healthy)) : Careful rf db db' := by
  refine ⟨fun v => Or.inl (healthy_length_mono hw fun r hr => ?_), fun r hr => Or.inl ?_⟩
  · obtain ⟨hm, rfl, hs⟩ := mem_healthyReplicas.mp hr
    obtain ⟨r', hr', hplace, hs'⟩ := h r hm
    exact ⟨r', mem_healthyReplicas.mpr ⟨hr', congrArg Prod.fst hplace, hs' hs⟩, congrArg Prod.snd hplace⟩
  · obtain ⟨r', hr', hplace, -⟩ := h r hr
    exact ⟨r', hr', hplace⟩

lemma Careful.amendReplica (hw : db.WellFormed) {i : UUID} {f : Replica → Replica} (hplace : ∀ r, (f r).place = r.place)
    (hs : ∀ r ∈ db.replicas, r.replicaId = i → r.status = .healthy → (f r).status = .healthy) :
    Careful rf db (db.amendReplica i f) := by
  refine .of_rows hw fun r hr => ⟨if r.replicaId = i then f r else r, Table.mem_amend.mpr ⟨r, hr, rfl⟩, ?_⟩
  split_ifs with hid
  · exact ⟨hplace r, hs r hr hid⟩
  · exact ⟨rfl, id⟩

lemma Careful.insertReplica (hw : db.WellFormed) (i : UUID) (n : String) : Careful rf db (Metadata.insertReplica i n db) :=
  .of_rows hw fun r hr => ⟨r, List.mem_append_left _ hr, rfl, id⟩

/-- A row goes while its version has more `HEALTHY` rows than the factor asks for. -/
lemma Careful.deleteReplica (hw : db.WellFormed) {r : Replica} (hr : r ∈ db.replicas)
    (hlt : rf < (healthyReplicas db r.versionId).length) : Careful rf db (Metadata.deleteReplica r.replicaId db) := by
  have hstays : ∀ s ∈ db.replicas, s ≠ r → s ∈ (Metadata.deleteReplica r.replicaId db).replicas := fun s hs hne =>
    Table.mem_remove.mpr ⟨hs, fun he => hne (hw.eq_of_id hs hr he)⟩
  have hleft : rf ≤ (healthyReplicas (Metadata.deleteReplica r.replicaId db) r.versionId).length := by
    have hsub : (healthyReplicas db r.versionId).map Replica.nodeId ⊆
        r.nodeId :: (healthyReplicas (Metadata.deleteReplica r.replicaId db) r.versionId).map Replica.nodeId := by
      intro n hn
      obtain ⟨s, hs, rfl⟩ := List.mem_map.mp hn
      obtain ⟨hm, hv, hst⟩ := mem_healthyReplicas.mp hs
      by_cases he : s = r
      · rw [he]
        exact List.mem_cons_self
      · exact List.mem_cons_of_mem _ (List.mem_map_of_mem (mem_healthyReplicas.mpr ⟨hstays s hm he, hv, hst⟩))
    have hlength := ((nodup_healthyNodes hw r.versionId).subperm hsub).length_le
    simp only [List.length_map, List.length_cons] at hlength
    omega
  refine ⟨fun v => ?_, fun s hs => ?_⟩
  · by_cases hv : v = r.versionId
    · exact Or.inr (hv ▸ hleft)
    · refine Or.inl (healthy_length_mono hw fun s hs => ⟨s, ?_, rfl⟩)
      obtain ⟨hm, hsv, hst⟩ := mem_healthyReplicas.mp hs
      refine mem_healthyReplicas.mpr ⟨hstays s hm fun he => hv ?_, hsv, hst⟩
      rw [← hsv, he]
  · by_cases he : s = r
    · exact Or.inr (he ▸ hleft)
    · exact Or.inl ⟨s, hstays s hs he, rfl⟩

end Careful

/-- What the schema promises of the table of rebalance jobs. -/
structure JobKeys (db : Db) : Prop where
  distinct : (db.rebalanceJobs.map RebalanceJob.rebalanceId).Nodup
  fresh : ∀ j ∈ db.rebalanceJobs, j.rebalanceId.n < db.nextId

/-- The tables since the drain began, and what is said of the nodes meanwhile. -/
structure Drained (rf : ℕ) (db₀ : Db) (K : List StorageNode → Prop) (db : Db) : Prop where
  wellFormed : db.WellFormed
  jobs : JobKeys db
  careful : Careful rf db₀ db
  nodes : K db.nodes

section Writes

variable {rf : ℕ} {db₀ db db' : Db} {K : List StorageNode → Prop}

/-- A write that leaves replicas, nodes and jobs alone, and takes no identifier back. -/
lemma Drained.frame (h : Drained rf db₀ K db) (hr : db'.replicas = db.replicas) (hn : db'.nodes = db.nodes)
    (hj : JobKeys db') (hi : db.nextId ≤ db'.nextId) : Drained rf db₀ K db' :=
  ⟨h.wellFormed.frame hr hn hi, hj, h.careful.trans (.of_replicas hr), hn ▸ h.nodes⟩

lemma Drained.amendRebalanceJob (h : Drained rf db₀ K db) (i : UUID) {f : RebalanceJob → RebalanceJob}
    (hf : ∀ j, (f j).rebalanceId = j.rebalanceId) : Drained rf db₀ K (db.amendRebalanceJob i f) := by
  refine h.frame rfl rfl ⟨Table.nodup_amend (f := f) hf h.jobs.distinct, fun j hj => ?_⟩ le_rfl
  obtain ⟨j', hj', rfl⟩ := Table.mem_amend.mp hj
  split_ifs
  · rw [hf]
    exact h.jobs.fresh j' hj'
  · exact h.jobs.fresh j' hj'

lemma JobKeys.insert (h : JobKeys db) {job : RebalanceJob} (hid : job.rebalanceId = db.newUuid) :
    JobKeys (insertRebalanceJob job db) := by
  refine ⟨Table.nodup_append_fresh h.distinct fun j hj he => ?_, fun j hj => ?_⟩
  · have hlt := h.fresh j hj
    rw [he, hid] at hlt
    exact absurd hlt (lt_irrefl _)
  · rcases List.mem_append.mp hj with hj | hj
    · exact (h.fresh j hj).trans (Nat.lt_succ_self _)
    · rw [List.mem_singleton.mp hj, hid]
      exact Nat.lt_succ_self _

lemma Drained.insertRebalanceJob (h : Drained rf db₀ K db) {job : RebalanceJob} (hid : job.rebalanceId = db.newUuid) :
    Drained rf db₀ K (insertRebalanceJob job db) :=
  h.frame rfl rfl (h.jobs.insert hid) (Nat.le_succ _)

lemma Drained.amendReplica (h : Drained rf db₀ K db) {i : UUID} {f : Replica → Replica}
    (hid : ∀ r, (f r).replicaId = r.replicaId) (hplace : ∀ r, (f r).place = r.place)
    (hs : ∀ r ∈ db.replicas, r.replicaId = i → r.status = .healthy → (f r).status = .healthy) :
    Drained rf db₀ K (db.amendReplica i f) :=
  ⟨h.wellFormed.amend i hid hplace, ⟨h.jobs.distinct, h.jobs.fresh⟩, h.careful.trans (.amendReplica h.wellFormed hplace hs), h.nodes⟩

lemma Drained.createReplica (h : Drained rf db₀ K db) {v : Arg UUID} {n : Arg String} {r : Replica}
    (hrun : (createReplica v n).run db = .ok (r, db')) : Drained rf db₀ K db' := by
  obtain ⟨i, m, -, -, hfree, -, -, rfl⟩ := createReplica_ok hrun
  refine ⟨h.wellFormed.insert hfree, ⟨h.jobs.distinct, fun j hj => ?_⟩, h.careful.trans (.insertReplica h.wellFormed i m),
    h.nodes⟩
  exact (h.jobs.fresh j hj).trans (Nat.lt_succ_self _)

lemma Drained.markVerified (h : Drained rf db₀ K db) {now : Time} {i : UUID} {c : Checksum} {z : ℕ} {w : Replica}
    (hrun : (markVerified Replica.status now i c z).run db = .ok (w, db')) : Drained rf db₀ K db' := by
  obtain ⟨r, v, -, -, -, -, -, -, rfl⟩ := markVerified_ok hrun
  exact h.amendReplica (fun _ => rfl) (fun _ => rfl) fun _ _ _ _ => rfl

/-- The status of a row that is not `HEALTHY` may change. -/
lemma Drained.setReplicaState (h : Drained rf db₀ K db) {r w : Replica} (hr : r ∈ db.replicas)
    (hs : r.status ≠ .healthy) {state : ReplicaState}
    (hrun : (setReplicaState (.value r.replicaId) (.value state)).run db = .ok (w, db')) : Drained rf db₀ K db' := by
  obtain ⟨r', hr', -, ⟨-, rfl⟩ | rfl⟩ := setReplicaState_row hrun
  · exact h
  · refine h.amendReplica (fun _ => rfl) (fun _ => rfl) fun s hs' hid hhealthy => ?_
    rw [h.wellFormed.eq_of_id hs' hr hid] at hhealthy
    exact absurd hhealthy hs

lemma Drained.removeReplica (h : Drained rf db₀ K db) {r w : Replica} (hr : r ∈ db.replicas)
    (hlt : rf < (healthyReplicas db r.versionId).length)
    (hrun : (removeReplica (.value r.replicaId)).run db = .ok (w, db')) : Drained rf db₀ K db' := by
  obtain ⟨r', hid, -, -, rfl⟩ := removeReplica_ok hrun
  rw [← Arg.value.inj hid]
  have hw := h.wellFormed
  refine ⟨⟨Table.nodup_remove hw.replicaIds _, fun s hs => hw.freshReplica s (Table.mem_remove.mp hs).1,
    Table.nodup_remove hw.places _, hw.nodeIds⟩, ⟨h.jobs.distinct, h.jobs.fresh⟩,
    h.careful.trans (.deleteReplica hw hr hlt), h.nodes⟩

end Writes

section Drains

variable {ρ : Type} {answers : ∀ {β : Type}, Request β → ρ → β → ρ → Prop} {cfg : Config} {db₀ : Db}
  {K : List StorageNode → Prop} {p : Point Db ρ Note}

/-- At every point of the run, in what the session sees and in what it has committed. -/
abbrev Durable (rf : ℕ) (db₀ : Db) (K : List StorageNode → Prop) (p : Point Db ρ Note) : Prop :=
  Throughout (fun _ db => Drained rf db₀ K db) p

abbrev KeepsDurable (answers : ∀ {β : Type}, Request β → ρ → β → ρ → Prop) (rf : ℕ) (db₀ : Db) (K : List StorageNode → Prop)
    {α : Type} (x : Job α) : Prop := Keeps answers (Durable rf db₀ K) x

lemma keeps_request_durable {β : Type} (q : Request β) : KeepsDurable answers cfg.replicationFactor db₀ K (request q) :=
  keeps_request_throughout (fun _ _ _ _ _ _ h => h) q

lemma keeps_ofClient_durable {α : Type} (x : Except ClientError α) :
    KeepsDurable answers cfg.replicationFactor db₀ K (Job.ofClient x) := by
  cases x with
  | ok a => exact keeps_pure a
  | error e => exact keeps_raise _

lemma keeps_verify_durable (n : String) (i : UUID) :
    KeepsDurable answers cfg.replicationFactor db₀ K (Job.verify n i) :=
  keeps_bind (keeps_request_durable _) fun _ => keeps_ofClient_durable _

lemma keeps_delete_durable (n : String) (i : UUID) :
    KeepsDurable answers cfg.replicationFactor db₀ K (Job.delete n i) :=
  keeps_bind (keeps_request_durable _) fun _ => keeps_ofClient_durable _

lemma keeps_copy_durable (n m : String) (i : UUID) :
    KeepsDurable answers cfg.replicationFactor db₀ K (Job.copy n m i) :=
  keeps_bind (keeps_request_durable _) fun _ => keeps_bind (keeps_ofClient_durable _) fun _ =>
    keeps_bind (keeps_request_durable _) fun _ => keeps_ofClient_durable _

lemma wp_enterCopying_durable {replica : Replica} (h : Durable cfg.replicationFactor db₀ K p)
    (hr : replica ∈ p.session.view.replicas) :
    wp answers (fun _ => Durable cfg.replicationFactor db₀ K) (enterCopying replica) p := by
  have hset : ∀ {q : Point Db ρ Note} {r : Replica} (state : ReplicaState), Durable cfg.replicationFactor db₀ K q →
      r ∈ q.session.view.replicas → r.status ≠ .healthy → wp answers (fun _ => Durable cfg.replicationFactor db₀ K)
        (transaction (setReplicaState (.value r.replicaId) (.value state))) q := fun state hq hr hs =>
    wp_transaction_throughout hq fun _ _ hrun => hq.view.setReplicaState hr hs hrun
  refine wp_ite.mpr ⟨fun _ => wp_pure.mpr h, fun hs => wp_ite.mpr ⟨fun _ => hset .copying h hr hs, fun _ => ?_⟩⟩
  refine wp_ite.mpr ⟨fun _ => ?_, fun _ => wp_bind.mpr (wp_require.mpr ⟨fun _ => wp_pure.mpr h, fun _ => h⟩)⟩
  -- The row is `REPAIRING` in between, which is not `HEALTHY` either.
  have hview : wp answers (Post.seq (fun _ q => replica.enter .repairing ∈ q.session.view.replicas) fun _ _ => True)
      (transaction (setReplicaState (.value replica.replicaId) (.value .repairing))) p := by
    refine wp_transaction_view (fun w s hrun => ?_) fun _ _ _ _ => trivial
    obtain ⟨r, hr', -, hcase⟩ := setReplicaState_row hrun
    obtain rfl : replica = r := h.view.wellFormed.eq_of_id hr (Table.lookup_mem hr') (Table.lookup_key hr').symm
    change replica.enter .repairing ∈ s.view.replicas
    rcases hcase with ⟨hst, hsame⟩ | hamend
    · rw [hsame, show replica.enter .repairing = replica by rw [← hst]; rfl]
      exact hr
    · rw [hamend]
      exact Table.mem_amend.mpr ⟨replica, hr, if_pos rfl⟩
  refine wp_bind.mpr (wp_mono ?_ (wp_and (hset .repairing h hr hs) hview))
  rintro r q ⟨hq, hrow⟩
  cases r with
  | error e => exact hq
  | ok w => exact hset (r := replica.enter .repairing) .copying hq hrow (by simp [Replica.enter])

lemma wp_targetReplica_durable {job : RebalanceJob} (h : Durable cfg.replicationFactor db₀ K p) :
    wp answers (fun _ => Durable cfg.replicationFactor db₀ K) (targetReplica job) p := by
  refine wp_bind.mpr (wp_bind.mpr (wp_query.mpr ?_))
  rw [Post.seq_ok]
  split
  · next replica hreplica => exact wp_pure.mpr (wp_enterCopying_durable h.look (Table.lookup_mem hreplica))
  · refine wp_mono ?_ (wp_and (wp_transaction_throughout h.look fun _ _ hrun => h.view.createReplica hrun)
      (wp_transaction_view (R := Post.seq (fun w q => w ∈ q.session.view.replicas) fun _ _ => True)
        (fun w s hrun => ?_) fun _ _ _ _ => trivial))
    · rintro r q ⟨hq, hrow⟩
      cases r with
      | error e => exact hq
      | ok w => exact wp_enterCopying_durable hq hrow
    · obtain ⟨i, n, -, -, -, -, rfl, hview⟩ := createReplica_ok hrun
      change _ ∈ s.view.replicas
      rw [hview]
      exact List.mem_append_right _ (List.mem_singleton.mpr rfl)

lemma keeps_verifySource_durable (job : RebalanceJob) (version : Version) :
    KeepsDurable answers cfg.replicationFactor db₀ K (verifySource job version) :=
  keeps_bind keeps_query_throughout fun _ => keeps_bind (keeps_require _ _) fun _ =>
    keeps_bind (keeps_verify_durable _ _) fun _ => keeps_require _ _

lemma keeps_copyToTarget_durable (job : RebalanceJob) (version : Version) :
    KeepsDurable answers cfg.replicationFactor db₀ K (copyToTarget job version) := by
  refine keeps_bind (keeps_verifySource_durable _ _) fun _ => keeps_bind (fun _ h => wp_targetReplica_durable h) fun _ =>
    keeps_bind (keeps_delete_durable _ _) fun _ => keeps_bind (keeps_copy_durable _ _ _) fun _ =>
    keeps_bind (keeps_verify_durable _ _) fun _ => keeps_bind (keeps_require _ _) fun _ =>
    keeps_bind (keeps_request_durable _) fun _ => keeps_bind ?_ fun _ => keeps_pure _
  exact keeps_transaction_throughout fun _ _ _ _ h hrun => h.markVerified hrun

/-- Nothing but the world changes. -/
lemma wp_delete_still (n : String) (i : UUID) :
    wp answers (fun _ q => q.session.view = p.session.view) (Job.delete n i) p := by
  refine wp_bind.mpr (wp_request.mpr fun b w _ => ?_)
  cases b with
  | ok _ => exact wp_pure.mpr rfl
  | error e => exact wp_raise.mpr rfl

/-- The source row goes only after the count was checked, and nothing has changed since. -/
lemma wp_removeSource_durable {job : RebalanceJob} {version : Version} (h : Durable cfg.replicationFactor db₀ K p) :
    wp answers (fun _ => Durable cfg.replicationFactor db₀ K) (removeSource cfg job version) p := by
  refine wp_bind.mpr (wp_query.mpr (wp_bind.mpr (wp_require.mpr ⟨fun hlt => ?_, fun _ => h.look⟩)))
  refine wp_bind.mpr (wp_mono ?_ (wp_and (keeps_delete_durable job.sourceNodeId version.versionId p.look h.look)
    (wp_delete_still job.sourceNodeId version.versionId)))
  rintro r q ⟨hq, hview⟩
  cases r with
  | error e => exact hq
  | ok _ =>
    refine wp_bind.mpr (wp_query.mpr ?_)
    rw [Post.seq_ok]
    split
    · next source hsource =>
      have hplace : source.place = (job.versionId, job.sourceNodeId) := Table.lookup_key hsource
      have hversion : source.versionId = job.versionId := congrArg Prod.fst hplace
      refine wp_bind_keeps (wp_transaction_throughout hq.look fun _ _ hrun => ?_) fun _ => keeps_pure _
      refine hq.view.removeReplica (Table.lookup_mem hsource) ?_ hrun
      rw [hversion, hview]
      exact hlt
    · exact wp_pure.mpr hq.look

lemma keeps_markJob_durable (i : UUID) (status : JobStatus) (error : Option String) :
    KeepsDurable answers cfg.replicationFactor db₀ K (save (markJob i status error)) :=
  keeps_save_throughout fun _ _ h => h.amendRebalanceJob i fun _ => rfl

/-- A job whose target has no row yet. -/
lemma keeps_moveReplica_durable (job : RebalanceJob) (version : Version) :
    KeepsDurable answers cfg.replicationFactor db₀ K (moveReplica cfg job version none) := by
  refine keeps_bind (keeps_pure false) fun verified => ?_
  have hrest : KeepsDurable answers cfg.replicationFactor db₀ K (do
      removeSource cfg job version
      save (markJob job.rebalanceId .succeeded none)
      pure (rebalanceResult (job.mark .succeeded none) true)) :=
    keeps_bind (fun _ h => wp_removeSource_durable h) fun _ => keeps_bind (keeps_markJob_durable _ _ _) fun _ => keeps_pure _
  cases verified with
  | true => exact hrest
  | false => exact keeps_bind (keeps_copyToTarget_durable job version) fun _ => hrest

lemma keeps_recoverJob_durable (job : RebalanceJob) (e : Failure) :
    KeepsDurable answers cfg.replicationFactor db₀ K (recoverJob cfg job e) := by
  have hfail : ∀ e message, KeepsDurable answers cfg.replicationFactor db₀ K (failJob cfg job e message) :=
    fun _ _ => keeps_bind (keeps_markJob_durable _ _ _) fun _ => keeps_raise _
  cases e with
  | client e => exact hfail _ _
  | vault e => exact hfail _ _
  | value m => exact keeps_raise _
  | illTyped => exact keeps_raise _
  | other m => exact keeps_raise _

/-- The version has no row on the target. -/
structure Vacant (cfg : Config) (db₀ : Db) (K : List StorageNode → Prop) (v : UUID) (target : String) (p : Point Db ρ Note) :
    Prop where
  durable : Durable cfg.replicationFactor db₀ K p
  vacant : p.session.view.replicaOn? v target = none

lemma Vacant.look {v : UUID} {target : String} (h : Vacant cfg db₀ K v target p) : Vacant cfg db₀ K v target p.look :=
  ⟨h.durable.look, h.vacant⟩

lemma wp_findVersion_vacant {v : UUID} {target : String} (h : Vacant cfg db₀ K v target p) (i : UUID) :
    wp answers (fun _ q => Vacant cfg db₀ K v target q ∧ q.session.view = p.session.view) (findVersion i) p := by
  refine wp_bind.mpr (wp_query.mpr (wp_bind.mpr (wp_demand.mpr ⟨fun version _ => ?_, fun _ => ⟨h.look, rfl⟩⟩)))
  exact wp_bind.mpr (wp_require.mpr ⟨fun _ => wp_pure.mpr ⟨h.look, rfl⟩, fun _ => ⟨h.look, rfl⟩⟩)

lemma wp_findNode_vacant {v : UUID} {target : String} (h : Vacant cfg db₀ K v target p) (n : String) :
    wp answers (fun _ q => Vacant cfg db₀ K v target q ∧ q.session.view = p.session.view) (findNode n) p :=
  wp_bind.mpr (wp_query.mpr (wp_demand.mpr ⟨fun _ _ => ⟨h.look, rfl⟩, fun _ => ⟨h.look, rfl⟩⟩))

lemma wp_startJob_durable {job : RebalanceJob} (h : Vacant cfg db₀ K job.versionId job.targetNodeId p) :
    wp answers (fun _ => Durable cfg.replicationFactor db₀ K) (startJob cfg job) p := by
  refine wp_bind.mpr (wp_mono ?_ (wp_findVersion_vacant h _))
  rintro r q ⟨hq, -⟩
  cases r with
  | error e => exact hq.durable
  | ok version =>
  refine wp_bind.mpr (wp_mono ?_ (wp_findNode_vacant hq _))
  rintro r q₁ ⟨hq₁, -⟩
  cases r with
  | error e => exact hq₁.durable
  | ok source =>
  refine wp_bind.mpr (wp_mono ?_ (wp_findNode_vacant hq₁ _))
  rintro r q₂ ⟨hq₂, -⟩
  cases r with
  | error e => exact hq₂.durable
  | ok target =>
  refine wp_bind.mpr (wp_query.mpr ?_)
  rw [Post.seq_ok, hq₂.vacant]
  refine wp_bind_keeps (keeps_save_throughout (fun _ _ h => ?_) _ hq₂.durable.look) fun _ => ?_
  · exact h.amendRebalanceJob job.rebalanceId fun _ => rfl
  · exact keeps_handle (keeps_moveReplica_durable _ _) fun e => keeps_recoverJob_durable _ e

lemma wp_runJob_durable {job : RebalanceJob} (h : Vacant cfg db₀ K job.versionId job.targetNodeId p)
    (hjob : job ∈ p.session.view.rebalanceJobs) :
    wp answers (fun _ => Durable cfg.replicationFactor db₀ K) (runJob cfg job.rebalanceId) p := by
  have hrow : p.session.view.rebalanceJob? job.rebalanceId = some job :=
    Table.lookup_of_mem h.durable.view.jobs.distinct hjob
  refine wp_bind.mpr (wp_query.mpr (wp_bind.mpr (wp_demand.mpr ⟨fun job' hjob' => ?_, fun _ => h.durable.look⟩)))
  cases hrow.symm.trans hjob'
  exact wp_ite.mpr ⟨fun _ => wp_pure.mpr h.durable.look, fun _ => wp_ite.mpr
    ⟨fun _ => wp_pure.mpr h.durable.look, fun _ => wp_startJob_durable h.look⟩⟩

/-- The job that `create_job` hands over, new or not, is for this version and this target. -/
lemma wp_findOrCreateJob_durable {v : UUID} {source target : String} (h : Vacant cfg db₀ K v target p) :
    wp answers (Post.seq (fun job q => Vacant cfg db₀ K job.versionId job.targetNodeId q ∧
      job ∈ q.session.view.rebalanceJobs) fun _ => Durable cfg.replicationFactor db₀ K)
      (findOrCreateJob v source target) p := by
  refine wp_bind.mpr (wp_query.mpr ?_)
  rw [Post.seq_ok]
  split
  · next job hjob =>
    have hmatch := List.find?_some hjob
    simp only [decide_eq_true_eq] at hmatch
    obtain ⟨rfl, rfl, -⟩ := hmatch
    exact wp_pure.mpr ⟨h.look, List.mem_of_find?_eq_some hjob⟩
  · let job : RebalanceJob :=
      { rebalanceId := p.session.view.newUuid, versionId := v, sourceNodeId := source, targetNodeId := target }
    have hinsert : Drained cfg.replicationFactor db₀ K (insertRebalanceJob job p.session.view) :=
      h.durable.view.insertRebalanceJob rfl
    refine wp_bind.mpr (wp_save.mpr (wp_pure.mpr ⟨⟨?_, h.vacant⟩, List.mem_append_right _ (List.mem_singleton.mpr rfl)⟩))
    exact h.durable.look.concat hinsert hinsert

lemma wp_createJob_durable {v : UUID} {source target : String} (h : Durable cfg.replicationFactor db₀ K p) :
    wp answers (Post.seq (fun job q => Vacant cfg db₀ K job.versionId job.targetNodeId q ∧
      job ∈ q.session.view.rebalanceJobs) fun _ => Durable cfg.replicationFactor db₀ K)
      (createJob v source target) p := by
  have hfind : ∀ {α β : Type} {x : Job α} {f : α → Job β} {R : Post Db Failure Note ρ β} {q : Point Db ρ Note},
      (∀ e q', Durable cfg.replicationFactor db₀ K q' → R (.error e) q') → Keeps answers (Durable cfg.replicationFactor db₀ K) x →
      Durable cfg.replicationFactor db₀ K q → (∀ a q', Durable cfg.replicationFactor db₀ K q' → wp answers R (f a) q') →
      wp answers R (x >>= f) q := by
    intro α β x f R q hR hx hq hf
    refine wp_bind.mpr (wp_mono ?_ (hx q hq))
    intro r q' hq'
    cases r with
    | error e => exact hR e q' hq'
    | ok a => exact hf a q' hq'
  have hversion : KeepsDurable answers cfg.replicationFactor db₀ K (findVersion v) :=
    keeps_bind keeps_query_throughout fun _ => keeps_bind (keeps_demand _ _) fun _ =>
      keeps_bind (keeps_require _ _) fun _ => keeps_pure _
  have hnode : ∀ n, KeepsDurable answers cfg.replicationFactor db₀ K (findNode n) :=
    fun _ => keeps_bind keeps_query_throughout fun _ => keeps_demand _ _
  refine hfind (fun _ _ h => h) hversion h fun version _ h => ?_
  refine hfind (fun _ _ h => h) (keeps_require _ _) h fun _ _ h => ?_
  refine hfind (fun _ _ h => h) (hnode source) h fun _ _ h => ?_
  refine hfind (fun _ _ h => h) (hnode target) h fun targetNode q h => ?_
  refine wp_bind.mpr (wp_query.mpr (wp_bind.mpr (wp_demand.mpr ⟨fun sourceRow _ => ?_, fun _ => h.look⟩)))
  refine wp_bind.mpr (wp_require.mpr ⟨fun _ => ?_, fun _ => h.look⟩)
  refine wp_bind.mpr (wp_require.mpr ⟨fun _ => ?_, fun _ => h.look⟩)
  refine wp_bind.mpr (wp_require.mpr ⟨fun _ => ?_, fun _ => h.look⟩)
  split
  · exact wp_raise.mpr h.look
  · next hvacant => exact wp_findOrCreateJob_durable ⟨h.look, hvacant⟩

lemma keeps_migrateReplica_durable (v : UUID) (source target : String) :
    KeepsDurable answers cfg.replicationFactor db₀ K (migrateReplica cfg v source target) := by
  intro p h
  refine wp_bind.mpr (wp_mono ?_ (wp_createJob_durable h))
  intro r q hq
  cases r with
  | error e => exact hq
  | ok job => exact wp_runJob_durable hq.1 hq.2

lemma keeps_drainReplica_durable (n : String) (i : UUID) :
    KeepsDurable answers cfg.replicationFactor db₀ K (drainReplica cfg n i) := by
  refine keeps_bind keeps_query_throughout fun db => ?_
  split
  · exact keeps_pure _
  · next replica _ =>
    have hversion : KeepsDurable answers cfg.replicationFactor db₀ K (findVersion replica.versionId) :=
      keeps_bind keeps_query_throughout fun _ => keeps_bind (keeps_demand _ _) fun _ =>
        keeps_bind (keeps_require _ _) fun _ => keeps_pure _
    refine keeps_bind (keeps_require _ _) fun _ => keeps_bind hversion fun version => ?_
    refine keeps_bind (keeps_bind keeps_query_throughout fun _ => keeps_demand _ _) fun target => ?_
    exact keeps_bind (keeps_migrateReplica_durable _ _ _) fun _ => keeps_pure _

lemma keeps_transitionNodeState_durable (n : String) {state : NodeState}
    (hK : ∀ nodes m, K nodes → K (Table.amend StorageNode.nodeId m (StorageNode.enter state) nodes)) :
    KeepsDurable answers cfg.replicationFactor db₀ K (transaction (transitionNodeState (.value n) (.value state))) := by
  refine keeps_transaction_throughout fun _ db _ _ h hrun => ?_
  obtain ⟨node, state', -, hs, -, ⟨-, -, rfl⟩ | ⟨-, -, rfl⟩⟩ := transitionNodeState_ok hrun
  · exact h
  · cases hs
    have hw := h.wellFormed
    refine ⟨⟨hw.replicaIds, hw.freshReplica, hw.places, fun m hm => ?_⟩, ⟨h.jobs.distinct, h.jobs.fresh⟩,
      h.careful.trans (.of_replicas rfl), hK _ _ h.nodes⟩
    obtain ⟨m', hm', rfl⟩ := Table.mem_amend.mp hm
    split_ifs
    · exact hw.nodeIds m' hm'
    · exact hw.nodeIds m' hm'

lemma keeps_findNode_durable (n : String) : KeepsDurable answers cfg.replicationFactor db₀ K (findNode n) :=
  keeps_bind keeps_query_throughout fun _ => keeps_demand _ _

lemma keeps_enterDraining_durable (n : String)
    (hK : ∀ nodes m, K nodes → K (Table.amend StorageNode.nodeId m (StorageNode.enter .draining) nodes)) :
    KeepsDurable answers cfg.replicationFactor db₀ K (enterDraining n) :=
  keeps_bind (keeps_findNode_durable n) fun _ => keeps_ite
    (fun _ => keeps_bind (keeps_transitionNodeState_durable n hK) fun _ => keeps_findNode_durable n) fun _ => keeps_pure _

/-- Whatever the storage answers, and wherever the drain stops. -/
lemma keeps_drainNode_durable (n : String) :
    KeepsDurable answers cfg.replicationFactor db₀ (fun _ => True) (drainNode cfg n) := by
  refine keeps_bind (keeps_enterDraining_durable n fun _ _ _ => trivial) fun _ => keeps_bind (keeps_require _ _) fun _ =>
    keeps_bind keeps_query_throughout fun _ => keeps_bind (keeps_forEach (keeps_drainReplica_durable n) _) fun _ =>
    keeps_bind (keeps_bind keeps_query_throughout fun _ => keeps_ite (fun _ => ?_) fun _ => keeps_pure _) fun _ => keeps_pure _
  exact keeps_bind (keeps_transitionNodeState_durable n fun _ _ _ => trivial) fun _ => keeps_pure _

/-- The node has not been removed. -/
def Present (n : String) (nodes : List StorageNode) : Prop :=
  ∀ node ∈ Table.lookup StorageNode.nodeId n nodes, node.status ≠ .removed

lemma Present.draining {n : String} {nodes : List StorageNode} (h : Present n nodes) (m : String) :
    Present n (Table.amend StorageNode.nodeId m (StorageNode.enter .draining) nodes) := by
  intro node hnode
  by_cases hm : n = m
  · subst hm
    rw [Table.lookup_amend (f := StorageNode.enter .draining) fun _ => rfl] at hnode
    obtain ⟨node', hnode', rfl⟩ := Option.mem_map.mp hnode
    rw [if_pos (Table.lookup_key hnode')]
    simp [StorageNode.enter]
  · rw [Table.lookup_amend_ne (f := StorageNode.enter .draining) (fun _ => rfl) _ hm] at hnode
    exact h node hnode

/-- A node that is removed has no row left. -/
lemma wp_retireNode {n : String} (h : Durable cfg.replicationFactor db₀ (Present n) p) :
    wp answers (Post.seq (fun _ q => (∃ node ∈ q.session.view.node? n, node.status = .removed) →
      ∀ r ∈ q.session.view.replicas, r.nodeId ≠ n) fun _ _ => True) (retireNode n) p := by
  refine wp_bind.mpr (wp_query.mpr (wp_ite.mpr ⟨fun hempty => ?_, fun _ => wp_pure.mpr fun ⟨node, hnode, hs⟩ => ?_⟩))
  · refine wp_bind.mpr (wp_transaction_view (fun _ s hrun => wp_pure.mpr fun _ r hr hn => ?_) fun _ _ _ _ => trivial)
    have hsame : s.view.replicas = p.session.view.replicas := by
      obtain ⟨node, state, -, -, -, ⟨-, -, hview⟩ | ⟨-, -, hview⟩⟩ := transitionNodeState_ok hrun
      · rw [hview]
        rfl
      · rw [hview]
        rfl
    change r ∈ s.view.replicas at hr
    rw [hsame] at hr
    have hmem : r ∈ p.session.view.replicas.filter (fun r => r.nodeId = n) := List.mem_filter.mpr ⟨hr, by simpa using hn⟩
    rw [hempty] at hmem
    cases hmem
  · exact absurd hs (h.view.nodes node hnode)

lemma wp_drainNode_removed {n : String} (h : Durable cfg.replicationFactor db₀ (Present n) p) :
    wp answers (Post.seq (fun _ q => (∃ node ∈ q.session.view.node? n, node.status = .removed) →
      ∀ r ∈ q.session.view.replicas, r.nodeId ≠ n) fun _ _ => True) (drainNode cfg n) p := by
  have hkeep : ∀ {α β : Type} {x : Job α} {f : α → Job β} {g : β → Point Db ρ Note → Prop} {q : Point Db ρ Note},
      Keeps answers (Durable cfg.replicationFactor db₀ (Present n)) x → Durable cfg.replicationFactor db₀ (Present n) q →
      (∀ a q', Durable cfg.replicationFactor db₀ (Present n) q' → wp answers (Post.seq g fun _ _ => True) (f a) q') →
      wp answers (Post.seq g fun _ _ => True) (x >>= f) q := by
    intro α β x f g q hx hq hf
    refine wp_bind.mpr (wp_mono ?_ (hx q hq))
    intro r q' hq'
    cases r with
    | error e => trivial
    | ok a => exact hf a q' hq'
  refine hkeep (keeps_enterDraining_durable n fun _ m hp => Present.draining hp m) h fun _ _ h => ?_
  refine hkeep (keeps_require _ _) h fun _ _ h => hkeep keeps_query_throughout h fun _ _ h => ?_
  refine hkeep (keeps_forEach (keeps_drainReplica_durable n) _) h fun _ _ h => ?_
  refine wp_bind.mpr (wp_mono ?_ (wp_retireNode h))
  intro r q hq
  cases r with
  | error e => trivial
  | ok _ => exact wp_pure.mpr hq

/-- A node that is already removed is refused. -/
lemma wp_drainNode_refused {n : String} (h : ∃ node ∈ p.session.view.node? n, node.status = .removed) :
    wp answers (Post.seq (fun _ _ => False) fun _ _ => True) (drainNode cfg n) p := by
  obtain ⟨node, hn, hs⟩ := h
  refine wp_bind.mpr (wp_bind.mpr (wp_bind.mpr (wp_query.mpr (wp_demand.mpr ⟨fun node' hn' => ?_, fun _ => trivial⟩))))
  cases Option.mem_def.mp hn |>.symm.trans hn'
  refine wp_ite.mpr ⟨fun hhealthy => ?_, fun _ => wp_pure.mpr ?_⟩
  · cases hs.symm.trans hhealthy
  · refine wp_bind.mpr (wp_require.mpr ⟨fun hdraining => ?_, fun _ => trivial⟩)
    cases hs.symm.trans hdraining

end Drains

/-- A drain that removes the node leaves no row on it, and enough `HEALTHY` rows elsewhere for each version that had
one there. However the drain ends, no version has fewer `HEALTHY` rows than the factor asks for or than it had. -/
theorem draining_keeps_durability {ρ : Type} (serve : ∀ {β : Type}, Request β → ρ → β × ρ) (w : ρ) (cfg : Config)
    (n : String) (db : Db) (hw : db.WellFormed) (hjobs : JobKeys db) :
    let run := exec serve (drainNode cfg n) (Point.start db w)
    let view := run.2.session.view
    (∀ results, run.1 = .ok results → (∃ node ∈ view.node? n, node.status = .removed) →
      (∀ r ∈ view.replicas, r.nodeId ≠ n) ∧ ∀ r ∈ db.replicas, r.nodeId = n →
        cfg.replicationFactor ≤ (healthyReplicas view r.versionId).length ∧
          ∀ s ∈ healthyReplicas view r.versionId, s.nodeId ≠ n) ∧
    (∀ v, min cfg.replicationFactor (healthyReplicas db v).length ≤ (healthyReplicas view v).length) ∧
      ∀ v, min cfg.replicationFactor (healthyReplicas db v).length ≤ (healthyReplicas run.2.session.durable v).length := by
  intro run view
  have hsound : ∀ {R : Post Db Failure Note ρ (List RebalanceResult)},
      wp (fun {β} (_ : Request β) (_ : ρ) (_ : β) (_ : ρ) => True) R (drainNode cfg n) (Point.start db w) →
        R run.1 run.2 := fun h => wp_sound (fun _ _ => trivial) h
  have hstart : ∀ K, K db.nodes → Durable cfg.replicationFactor db K (Point.start db w) := fun K hK =>
    have hdrained : Drained cfg.replicationFactor db K db := ⟨hw, hjobs, .refl _ _, hK⟩
    ⟨hdrained, hdrained, by simp [Point.start]⟩
  have hend := hsound (keeps_drainNode_durable n _ (hstart _ trivial))
  refine ⟨fun results hret hremoved => ?_, fun v => hend.view.careful.min_le v, fun v => hend.durable.careful.min_le v⟩
  have hempty : ∀ r ∈ view.replicas, r.nodeId ≠ n := by
    by_cases hpresent : Present n db.nodes
    · have hrun := hsound (wp_drainNode_removed (hstart _ hpresent))
      rw [hret] at hrun
      exact hrun hremoved
    · have hgone : ∃ node ∈ db.node? n, node.status = .removed := by simpa [Present, Db.node?] using hpresent
      have hrun := hsound (wp_drainNode_refused hgone)
      rw [hret] at hrun
      exact hrun.elim
  refine ⟨hempty, fun r hr hn => ⟨?_, fun s hs => hempty s (mem_healthyReplicas.mp hs).1⟩⟩
  refine (hend.view.careful.rows r hr).resolve_left fun hkept => ?_
  obtain ⟨r', hr', hplace⟩ := hkept
  refine hempty r' hr' ?_
  exact (congrArg Prod.snd hplace).trans hn

theorem only_copy_drained :
    let run := exec Storage.serve (drainNode ⟨1, 3, by decide, by decide⟩ "a") (Point.start sampleDb
      ⟨sampleStore, fun _ => { received := sampleBlob }⟩)
    (run.2.session.view.node? "a").map StorageNode.status = some .removed ∧
      (∀ r ∈ run.2.session.view.replicas, r.nodeId ≠ "a") ∧ 1 ≤ (healthyReplicas run.2.session.view ⟨1⟩).length := by
  intro run
  have hw : sampleDb.WellFormed := ⟨by decide, by decide, by decide, by decide⟩
  have hret : run.1 = .ok [⟨⟨4⟩, ⟨1⟩, "a", "b", .succeeded, 1, true⟩] := by decide +kernel
  have hremoved : (run.2.session.view.node? "a").map StorageNode.status = some .removed := by decide +kernel
  obtain ⟨hdrained, -⟩ := draining_keeps_durability Storage.serve ⟨sampleStore, fun _ => { received := sampleBlob }⟩
    ⟨1, 3, by decide, by decide⟩ "a" sampleDb hw ⟨by decide, by decide⟩
  obtain ⟨hempty, hcount⟩ := hdrained _ hret (Option.map_eq_some_iff.mp hremoved)
  exact ⟨hremoved, hempty, (hcount _ (List.mem_singleton.mpr rfl) rfl).1⟩

end Vault.Rebalance
