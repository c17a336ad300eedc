import Vault.Repair.Refill

/-! The loop of `repair_version_until_healthy`. Every job that returns adds one `HEALTHY` row on a node that had none of
the version, so the number of missing rows bounds the rounds; the loop deletes bytes only on such nodes. -/

namespace Vault.Repair

open Vault.Common Vault.Metadata Vault.Storage Vault.Lib Vault.Lib.Script Vault.Lib.Transaction

/-- `none` says that the loop has not ended within that many rounds. -/
def repairVersionUntilHealthy (maxAttempts : ℕ) (versionId : UUID) (replicationFactor : ℤ) (reason : Arg String) :
    ℕ → List RepairResult → Job (Option (List RepairResult))
  | 0, _ => pure none
  | rounds + 1, results => do
    let db ← query
    if replicationFactor ≤ (healthyReplicas db versionId).length then pure (some results)
    else do
      let job ← schedule versionId replicationFactor reason none
      match job with
      | none => pure (some results)
      | some job => do
        let result ← runJob maxAttempts job.repairId
        repairVersionUntilHealthy maxAttempts versionId replicationFactor reason rounds (results ++ [result])

section Rounds

variable {ρ : Type} {answers : ∀ {β : Type}, Request β → ρ → β → ρ → Prop} {p : Point Db ρ Note} {db₀ : Db} {v : UUID}
  {touched : List String} {extra : List Replica} {rf : ℤ} {reason : Arg String}

lemma Extended.healthyReplicas {db : Db} (h : Extended db₀ v touched extra db)
    (hextra : ∀ r ∈ extra, r.status = .healthy) :
    Repair.healthyReplicas db v = Repair.healthyReplicas db₀ v ++ extra := by
  rw [Repair.healthyReplicas, h.rows, List.filter_append, Repair.healthyReplicas]
  congr 1
  exact List.filter_eq_self.mpr fun r hr => by simp [h.version r hr, hextra r hr]

lemma Extended.nodup {db : Db} (h : Extended db₀ v touched extra db) : (extra.map Replica.nodeId).Nodup := by
  have hplaces := h.wellFormed.places
  rw [h.rows, List.map_append] at hplaces
  refine List.Nodup.of_map (fun n => (v, n)) ?_
  have hsame : (extra.map Replica.nodeId).map (fun n => (v, n)) = extra.map Replica.place := by
    rw [List.map_map]
    refine List.map_congr_left fun r hr => ?_
    rw [Function.comp_apply, Replica.place, h.version r hr]
  rw [hsame]
  exact hplaces.of_append_right

lemma Extended.not_held {db : Db} (h : Extended db₀ v touched extra db) {r s : Replica} (hr : r ∈ extra)
    (hs : s ∈ db₀.replicas) (hv : s.versionId = v) : s.nodeId ≠ r.nodeId := by
  have hplaces := h.wellFormed.places
  rw [h.rows, List.map_append] at hplaces
  intro he
  have hplace : s.place = r.place := by rw [Replica.place, Replica.place, hv, h.version r hr, he]
  exact List.disjoint_of_nodup_append hplaces (List.mem_map_of_mem hs) (hplace ▸ List.mem_map_of_mem hr)

/-- What a round has to do: the job that it runs is for the first candidate, and names the first source unless it is
an old one. -/
structure Dispatched (db₀ : Db) (v : UUID) (version : Version) (source : Replica) (target : StorageNode) (db : Db)
    (job : RepairJob) : Prop where
  versionRow : db₀.version? v = some version
  firstSource : (healthySources db v).head? = some source
  firstTarget : (candidates db version).head? = some target
  found : activeJob db v target.nodeId = some job ∨ activeJob db v target.nodeId = none ∧
    job.sourceNodeId = source.nodeId
  active : Active job.status
  versionId : job.versionId = v
  targetNodeId : job.targetNodeId = target.nodeId

lemma keeps_schedule_throughout {P : ρ → Db → Prop} (hP : ∀ w db job, P w db → P w (insertRepairJob job db)) (i : UUID)
    (preferred : Option Replica) :
    Keeps answers (Throughout P) (schedule i rf reason preferred : Job (Option RepairJob)) := by
  refine keeps_bind keeps_query_throughout fun db => ?_
  split
  · exact keeps_raise _
  · exact keeps_pure _
  · exact keeps_pure _
  · exact keeps_bind (keeps_save_throughout fun w db h => hP w db _ h) fun _ => keeps_pure _

lemma wp_schedule_along (h : Along db₀ v touched extra p)
    (hfew : (healthyReplicas p.session.view v).length < rf) :
    wp answers (Post.seq (fun o q => ∃ version source target job, o = some job ∧
      Dispatched db₀ v version source target p.session.view job ∧ job ∈ q.session.view.repairJobs ∧
      Along db₀ v (touched ++ [target.nodeId]) extra q ∧ q.world = p.world)
      fun e q => (scheduleForVersion v rf reason none).run p.session.view = .error e ∧ Along db₀ v touched extra q ∧
        q.world = p.world) (schedule v rf reason none) p := by
  have hkept : wp answers (fun _ => Throughout (fun _ db => db₀.replicas <+: db.replicas))
      (schedule v rf reason none) p := keeps_schedule_throughout (fun _ _ _ h => h) v none p h.kept
  refine wp_mono ?_ (wp_and hkept (wp_schedule v rf reason none p))
  rintro r q ⟨hkept, hs, hworld⟩
  generalize hview : q.session.view = db at hs
  cases hs with
  | enough henough => exact absurd hfew (not_lt.mpr henough)
  | reused version s t job hv hless hs ht hactive =>
    obtain ⟨hmem, hi, hn, ha⟩ := activeJob_some hactive
    rw [h.view.version?] at hv
    refine ⟨version, s, t, job, rfl, ⟨hv, hs, ?_, Or.inl hactive, ha, hi, hn⟩, hview ▸ hmem, ⟨?_, hkept⟩, hworld⟩
    · rwa [targetForVersion_of_none rfl] at ht
    · rw [hview]
      exact h.view.touch (List.subset_append_left _ _)
  | created version s t hv hless hs ht hactive =>
    rw [h.view.version?] at hv
    refine ⟨version, s, t, _, rfl, ⟨hv, hs, ?_, Or.inr ⟨hactive, rfl⟩, Or.inl rfl, rfl, rfl⟩, ?_, ⟨?_, hkept⟩, hworld⟩
    · rwa [targetForVersion_of_none rfl] at ht
    · rw [hview]
      exact List.mem_append_right _ (List.mem_singleton.mpr rfl)
    · rw [hview]
      exact (h.view.touch (List.subset_append_left _ _)).insertRepairJob rfl (by simp [newJob])
  | failed e he =>
    refine ⟨he, ⟨?_, hkept⟩, hworld⟩
    rw [hview]
    exact h.view

/-- The job of a round finds no row of the version on its target, and the node `HEALTHY`. -/
lemma wp_runJob_dispatched {m : ℕ} {db : Db} {job : RepairJob} {version : Version} {source : Replica}
    {target : StorageNode} {W : Time → ρ → Prop} {E : Point Db ρ Note → Prop} (hnodes : db₀.NodeKeys)
    (hdb : Extended db₀ v touched extra db) (hd : Dispatched db₀ v version source target db job)
    (hE : ∀ q i status error, E q → E (q.move (q.session.commit (markJob i status error))))
    (h : Along db₀ v (touched ++ [target.nodeId]) extra p) (hjob : job ∈ p.session.view.repairJobs)
    (hrefused : ¬(Sourced p.session.view job ∧ job.targetNodeId ≠ "") → ∀ q extra',
      Along db₀ v (touched ++ [target.nodeId]) extra' q → q.world = p.world → E q)
    (hrebuild : Sourced p.session.view job → ∀ replicaId q,
      Along db₀ v (touched ++ [target.nodeId]) (extra ++ [openedRow replicaId v target.nodeId]) q → q.world = p.world →
      wp answers (Post.seq (fun _ q' => ∃ now, Along db₀ v (touched ++ [target.nodeId])
        (extra ++ [mendedRow replicaId version target.nodeId now]) q' ∧ W now q'.world) fun _ => E)
        (rebuildTarget job.start version replicaId) q) :
    wp answers (Post.seq (fun result q => result = repairResult (job.start.mark .succeeded none) ∧ ∃ replicaId now,
      Along db₀ v (touched ++ [target.nodeId]) (extra ++ [mendedRow replicaId version target.nodeId now]) q ∧
        W now q.world) fun _ => E) (runJob m job.repairId) p := by
  obtain ⟨hmem, hfits, hvacant⟩ := mem_candidates.mp (List.mem_of_head? hd.firstTarget)
  have hid : version.versionId = v := Table.lookup_key hd.versionRow
  have hfree : p.session.view.replicaOn? v job.targetNodeId = none := by
    refine Table.lookup_eq_none.mpr fun r hr he => ?_
    rw [h.view.rows, ← hdb.rows] at hr
    rw [Prod.mk.injEq, hd.targetNodeId, ← hid] at he
    exact hvacant r hr he.1 he.2
  have hnode : db₀.node? job.targetNodeId = some target := by
    rw [hd.targetNodeId]
    exact Table.lookup_of_mem hnodes.distinct (hdb.nodes ▸ hmem)
  rw [← hd.targetNodeId] at h hrefused hrebuild ⊢
  exact wp_runJob_vacant hE h hjob hd.active hd.versionId hd.versionRow (by simp) hfree hnode hfits.1 hrefused hrebuild

end Rounds

/-- The places where a request deletes bytes. -/
def deletions : ∀ {β : Type}, Request β → List (UUID × String)
  | _, .delete n i => [(i, n)]
  | _, _ => []

/-- The world answers as it likes, and the places where bytes were deleted are on record. -/
def tracked {ρ : Type} : ∀ {β : Type}, Request β → ρ × List (UUID × String) → β → ρ × List (UUID × String) → Prop :=
  fun q w _ w' => w'.2 = w.2 ++ deletions q

def tracking {ρ : Type} (serve : ∀ {β : Type}, Request β → ρ → β × ρ) :
    ∀ {β : Type}, Request β → ρ × List (UUID × String) → β × ρ × List (UUID × String) :=
  fun q w => ((serve q w.1).1, (serve q w.1).2, w.2 ++ deletions q)

/-- No bytes were deleted where the tables have a row. -/
def Spared (db : Db) (log : List (UUID × String)) : Prop := ∀ place ∈ log, ∀ r ∈ db.replicas, r.place ≠ place

section Loop

variable {ρ : Type} {p : Point Db (ρ × List (UUID × String)) Note} {db₀ : Db} {v : UUID} {extra : List Replica} {rf : ℤ}
  {reason : Arg String}

/-- Where the bytes of the rows of `db₀` still are, and so are the rows. -/
structure Unharmed (db₀ : Db) (p : Point Db (ρ × List (UUID × String)) Note) : Prop where
  rows : Throughout (fun _ db => db₀.replicas <+: db.replicas) p
  bytes : Spared db₀ p.world.2

lemma Unharmed.mark (h : Unharmed db₀ p) (i : UUID) (status : JobStatus) (error : Option String) :
    Unharmed db₀ (p.move (p.session.commit (markJob i status error))) :=
  ⟨h.rows.concat h.rows.view h.rows.view, h.bytes⟩

lemma wp_rebuildBytes {job : RepairJob} {version : Version} (h : Unharmed db₀ p)
    (hplace : ∀ r ∈ db₀.replicas, r.place ≠ (version.versionId, job.targetNodeId)) :
    wp tracked (Post.seq (fun b q => b.Matches version ∧ q.session = p.session ∧ Unharmed db₀ q)
      fun _ => Unharmed db₀) (rebuildBytes job version) p := by
  have hask : ∀ {α : Type} (q : Request α), (∀ place ∈ deletions q, place = (version.versionId, job.targetNodeId)) →
      Keeps tracked (fun q : Point Db (ρ × List (UUID × String)) Note => q.session = p.session ∧ Unharmed db₀ q)
        (request q : Job α) := by
    intro α q hq
    refine keeps_request_of fun p' b w hw hp' => ⟨hp'.1, hp'.2.rows.turn fun _ => id, ?_⟩
    change Spared db₀ w.2
    rw [hw]
    intro place hm
    rcases List.mem_append.mp hm with hm | hm
    · exact hp'.2.bytes place hm
    · rw [hq place hm]
      exact hplace
  have hclient : ∀ {α : Type} (x : Except ClientError α), Keeps tracked
      (fun q : Point Db (ρ × List (UUID × String)) Note => q.session = p.session ∧ Unharmed db₀ q) (Job.ofClient x) := by
    intro α x
    cases x with
    | ok a => exact keeps_pure a
    | error e => exact keeps_raise _
  have hkeeps : Keeps tracked (fun q : Point Db (ρ × List (UUID × String)) Note => q.session = p.session ∧ Unharmed db₀ q)
      (rebuildBytes job version) := by
    refine keeps_bind (keeps_bind (hask _ (by simp [deletions])) fun _ => hclient _) fun _ =>
      keeps_bind (keeps_require _ _) fun _ => ?_
    refine keeps_bind (keeps_bind (hask _ (by simp [deletions])) fun _ => hclient _) fun _ => keeps_bind ?_ fun _ => ?_
    · exact keeps_bind (hask _ (by simp [deletions])) fun _ => keeps_bind (hclient _) fun _ =>
        keeps_bind (hask _ (by simp [deletions])) fun _ => hclient _
    · exact keeps_bind (keeps_bind (hask _ (by simp [deletions])) fun _ => hclient _) fun _ =>
        keeps_bind (keeps_require _ _) fun _ => keeps_pure _
  have hmatches : wp tracked (Post.seq (fun b _ => b.Matches version) fun _ _ => True) (rebuildBytes job version) p :=
    wp_bind_last fun _ _ => wp_bind_last fun _ _ => wp_bind_last fun _ _ => wp_bind_last fun _ _ =>
      wp_bind_last fun b q => wp_bind.mpr (wp_require.mpr ⟨fun hb => wp_pure.mpr hb, fun _ => trivial⟩)
  refine wp_mono ?_ (wp_and hmatches (hkeeps p ⟨rfl, h⟩))
  rintro r q ⟨hm, hq⟩
  cases r with
  | error e => exact hq.2
  | ok b => exact ⟨hm, hq⟩

/-- Where the loop stands after the rounds that gave `results`. -/
structure Refilled (db₀ : Db) (v : UUID) (rf : ℤ) (extra : List Replica) (results : List RepairResult)
    (p : Point Db (ρ × List (UUID × String)) Note) : Prop where
  along : Along db₀ v (extra.map Replica.nodeId) extra p
  healthy : ∀ r ∈ extra, r.status = .healthy
  targets : results.map RepairResult.targetNodeId = extra.map Replica.nodeId
  succeeded : ∀ r ∈ results, r.status = .succeeded ∧ r.versionId = v
  bytes : Spared db₀ p.world.2
  needed : extra ≠ [] → (healthyReplicas db₀ v).length + extra.length ≤ rf

lemma Refilled.count {results : List RepairResult} (h : Refilled db₀ v rf extra results p) :
    (healthyReplicas p.session.view v).length = (healthyReplicas db₀ v).length + extra.length := by
  rw [h.along.view.healthyReplicas h.healthy, List.length_append]

lemma Refilled.concat {results : List RepairResult} (h : Refilled db₀ v rf extra results p) {job : RepairJob}
    {version : Version} {source : Replica} {target : StorageNode} {db : Db} {replicaId : UUID} {now : Time}
    {q : Point Db (ρ × List (UUID × String)) Note} (hd : Dispatched db₀ v version source target db job)
    (hfew : (healthyReplicas p.session.view v).length < rf)
    (hq : Along db₀ v (extra.map Replica.nodeId ++ [target.nodeId])
      (extra ++ [mendedRow replicaId version target.nodeId now]) q) (hbytes : Spared db₀ q.world.2) :
    Refilled db₀ v rf (extra ++ [mendedRow replicaId version target.nodeId now])
      (results ++ [repairResult (job.start.mark .succeeded none)]) q where
  along := by
    rw [List.map_append]
    exact hq
  healthy r hr := by
    rcases List.mem_append.mp hr with hr | hr
    · exact h.healthy r hr
    · rw [List.mem_singleton.mp hr]
      rfl
  targets := by
    rw [List.map_append, List.map_append, h.targets]
    exact congrArg _ (congrArg (fun n => [n]) hd.targetNodeId)
  succeeded r hr := by
    rcases List.mem_append.mp hr with hr | hr
    · exact h.succeeded r hr
    · rw [List.mem_singleton.mp hr]
      exact ⟨rfl, hd.versionId⟩
  bytes := hbytes
  needed _ := by
    rw [h.count] at hfew
    rw [List.length_append, List.length_singleton]
    push_cast at hfew ⊢
    omega

/-- The induction is on the rounds that are left, which the rows that are missing bound. -/
lemma wp_repairVersionUntilHealthy {m rounds : ℕ} {results : List RepairResult} (hnodes : db₀.NodeKeys)
    (h : Refilled db₀ v rf extra results p) (hsome : 0 < rounds)
    (hrounds : rf < (healthyReplicas db₀ v).length + extra.length + rounds) :
    wp tracked (Post.seq (fun o q => ∃ results' extra', o = some results' ∧ Refilled db₀ v rf extra' results' q ∧
      rf ≤ (healthyReplicas db₀ v).length + extra'.length) fun _ => Unharmed db₀)
      (repairVersionUntilHealthy m v rf reason rounds results) p := by
  induction rounds generalizing extra results p with
  | zero => exact absurd hsome (lt_irrefl _)
  | succ rounds ih =>
  refine wp_bind.mpr (wp_query.mpr (wp_ite.mpr ⟨fun henough => ?_, fun hfew => ?_⟩))
  · refine wp_pure.mpr ⟨results, extra, rfl, ⟨h.along.look, h.healthy, h.targets, h.succeeded, h.bytes, h.needed⟩, ?_⟩
    rw [h.count] at henough
    push_cast at henough
    exact henough
  have hfew : (healthyReplicas p.session.view v).length < rf := not_le.mp hfew
  refine wp_bind.mpr (wp_mono ?_ (wp_schedule_along h.along.look hfew))
  intro r q hq
  cases r with
  | error e => exact ⟨hq.2.1.kept, hq.2.2 ▸ h.bytes⟩
  | ok o =>
  obtain ⟨version, source, target, job, rfl, hd, hjob, hq, hworld⟩ := hq
  have hbytes : Spared db₀ q.world.2 := hworld ▸ h.bytes
  have hid : version.versionId = v := Table.lookup_key hd.versionRow
  have hplace : ∀ r ∈ db₀.replicas, r.place ≠ (version.versionId, target.nodeId) := by
    obtain ⟨-, -, hvacant⟩ := mem_candidates.mp (List.mem_of_head? hd.firstTarget)
    intro r hr he
    refine hvacant r ?_ (congrArg Prod.fst he) (congrArg Prod.snd he)
    change r ∈ p.session.view.replicas
    rw [h.along.view.rows]
    exact List.mem_append_left _ hr
  refine wp_bind.mpr (wp_mono ?_ (wp_runJob_dispatched (W := fun _ w => Spared db₀ w.2) (E := Unharmed db₀) hnodes
    h.along.look.view hd (fun q i status error hq => hq.mark i status error) hq hjob
    (fun _ q' extra' hq' hw' => ⟨hq'.kept, hw' ▸ hbytes⟩) fun _ replicaId q' hq' hw' => ?_))
  · intro r q' hq'
    cases r with
    | error e => exact hq'
    | ok result =>
      obtain ⟨rfl, replicaId, now, hq', hw'⟩ := hq'
      have hnext := h.concat hd hfew hq' hw'
      have hneeded := hnext.needed (by simp)
      rw [List.length_append, List.length_singleton] at hneeded
      push_cast at hneeded hrounds
      refine ih hnext (by omega) ?_
      rw [List.length_append, List.length_singleton]
      push_cast
      omega
  · refine wp_rebuildTarget (W := fun _ w => Spared db₀ w.2) hd.versionRow hq' (wp_mono ?_ (wp_rebuildBytes ⟨hq'.kept, hw' ▸ hbytes⟩ ?_))
    · intro r q'' hq''
      cases r with
      | error e => exact hq''
      | ok b =>
        refine ⟨hq''.1, hq''.2.1, hq''.2.2.rows, fun now w hw => ?_⟩
        have hlog : w.2 = q''.world.2 ++ [] := hw
        rw [hlog, List.append_nil]
        exact hq''.2.2.bytes
    · rwa [show job.start.targetNodeId = target.nodeId from hd.targetNodeId]

end Loop

/-- The loop ends within one round more than rows are missing. If it returns, each of its jobs has filled another node
that held nothing of the version, and no more than were missing. However it ends, every row that was there is still
there, and no bytes were deleted where one of them says that they are. -/
theorem repair_does_the_missing_work {ρ : Type} (serve : ∀ {β : Type}, Request β → ρ → β × ρ) (w : ρ) (maxAttempts : ℕ)
    (v : UUID) (rf : ℤ) (reason : Arg String) (db : Db) (hw : db.WellFormed) (hnodes : db.NodeKeys) (hjobs : JobKeys db)
    (rounds : ℕ) (hrounds : (rf - (healthyReplicas db v).length).toNat < rounds) :
    let run := exec (tracking serve) (repairVersionUntilHealthy maxAttempts v rf reason rounds []) (Point.start db (w, []))
    let view := run.2.session.view
    let healthy := (healthyReplicas db v).length
    run.1 ≠ .ok none ∧
    (∀ results, run.1 = .ok (some results) →
      (results.length : ℤ) = max 0 (rf - healthy) ∧ (∀ r ∈ results, r.status = .succeeded ∧ r.versionId = v) ∧
      (results.map RepairResult.targetNodeId).Nodup ∧
      (∀ r ∈ results, ∀ s ∈ healthyReplicas db v, s.nodeId ≠ r.targetNodeId) ∧
      ((healthyReplicas view v).length : ℤ) = max (healthy : ℤ) rf) ∧
    (∀ r ∈ db.replicas, r.status = .healthy → r ∈ view.replicas ∧ r ∈ run.2.session.durable.replicas) ∧
    ∀ r ∈ db.replicas, r.status = .healthy → r.place ∉ run.2.world.2 := by
  intro run view healthy
  have hstart : Refilled db v rf [] [] (Point.start db (w, []) : Point Db (ρ × List (UUID × String)) Note) := by
    refine ⟨⟨.refl hw hjobs [], ⟨List.prefix_refl _, List.prefix_refl _, by simp [Point.start]⟩⟩, ?_, rfl, ?_, ?_, ?_⟩
    · simp
    · simp
    · simp [Point.start, Spared]
    · simp
  have hloop : wp tracked _ (repairVersionUntilHealthy maxAttempts v rf reason rounds [])
      (Point.start db (w, []) : Point Db (ρ × List (UUID × String)) Note) :=
    wp_repairVersionUntilHealthy hnodes hstart (by omega) (by simp only [List.length_nil]; omega)
  have hrun := wp_sound (fun q w => rfl : ∀ {β : Type} (q : Request β) (w : ρ × List (UUID × String)),
    tracked q w (tracking serve q w).1 (tracking serve q w).2) hloop
  have hunharmed : Unharmed db run.2 := by
    cases hres : run.1 with
    | error e =>
      rw [show (exec (tracking serve) _ _).1 = _ from hres] at hrun
      exact hrun
    | ok o =>
      rw [show (exec (tracking serve) _ _).1 = _ from hres] at hrun
      obtain ⟨results, extra, -, hend, -⟩ := hrun
      exact ⟨hend.along.kept, hend.bytes⟩
  refine ⟨fun hnone => ?_, fun results hret => ?_, fun r hr _ => ⟨?_, ?_⟩, fun r hr _ hmem => ?_⟩
  · rw [show (exec (tracking serve) _ _).1 = _ from hnone] at hrun
    obtain ⟨results, extra, hno, -⟩ := hrun
    cases hno
  · rw [show (exec (tracking serve) _ _).1 = _ from hret] at hrun
    obtain ⟨results', extra, hresults, hend, henough⟩ := hrun
    cases hresults
    have hlength : results.length = extra.length := by simpa using congrArg List.length hend.targets
    have hcount : (healthyReplicas view v).length = healthy + extra.length := hend.count
    have hexact : extra = [] ∧ rf ≤ healthy ∨ healthy + extra.length = rf := by
      rcases eq_or_ne extra [] with rfl | hne
      · exact Or.inl ⟨rfl, by simpa using henough⟩
      · exact Or.inr (le_antisymm (hend.needed hne) henough)
    refine ⟨?_, hend.succeeded, hend.targets ▸ hend.along.view.nodup, fun r hr s hs => ?_, ?_⟩
    · rw [hlength]
      rcases hexact with ⟨rfl, hle⟩ | hsum
      · rw [max_eq_left (by omega)]
        rfl
      · rw [max_eq_right (by omega)]
        omega
    · obtain ⟨hm, hv, -⟩ := by simpa [healthyReplicas] using hs
      have hmem : r.targetNodeId ∈ extra.map Replica.nodeId := hend.targets ▸ List.mem_map_of_mem hr
      obtain ⟨r', hr', hn⟩ := List.mem_map.mp hmem
      rw [← hn]
      exact hend.along.view.not_held hr' hm hv
    · rw [hcount]
      push_cast
      rcases hexact with ⟨rfl, hle⟩ | hsum
      · rw [max_eq_left hle]
        simp
      · rw [max_eq_right (by omega)]
        exact hsum
  · exact hunharmed.rows.view.subset hr
  · exact hunharmed.rows.durable.subset hr
  · exact hunharmed.bytes r.place hmem r hr rfl

theorem second_copy_repaired :
    let run := exec (tracking Storage.serve) (repairVersionUntilHealthy 3 ⟨1⟩ 2 (.value "") 2 []) (Point.start sampleDb
      (⟨sampleStore, fun _ => { received := sampleBlob }⟩, []))
    run.1 = .ok (some [⟨⟨3⟩, ⟨1⟩, "a", "b", .succeeded, 1⟩]) ∧
      ((healthyReplicas run.2.session.view ⟨1⟩).length : ℤ) = 2 ∧ run.2.world.2 = [(⟨1⟩, "b")] := by
  intro run
  have hret : run.1 = .ok (some [⟨⟨3⟩, ⟨1⟩, "a", "b", .succeeded, 1⟩]) := by decide +kernel
  obtain ⟨-, hdone, -⟩ := repair_does_the_missing_work Storage.serve ⟨sampleStore, fun _ => { received := sampleBlob }⟩ 3
    ⟨1⟩ 2 (.value "") sampleDb ⟨by decide, by decide, by decide, by decide⟩ ⟨by decide, by decide⟩ ⟨by decide, by decide⟩
    2 (by decide)
  obtain ⟨-, -, -, -, hcount⟩ := hdone _ hret
  exact ⟨hret, hcount, by decide +kernel⟩

end Vault.Repair
