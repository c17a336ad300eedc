import Vault.Lib.Steps
import Vault.Repair.Outcomes
import Vault.Repair.Running
import Vault.Repair.Target

/-! A repair job whose target holds no row of the version yet. All that it changes in the replica table is one row at
its end: the row is created, marked `REPAIRING`, and `HEALTHY` once the bytes on the target have been verified. -/

namespace Vault.Repair

open Vault.Common Vault.Metadata Vault.Storage Vault.Lib Vault.Lib.Script Vault.Lib.Transaction

/-- What the schema promises of the table of repair jobs. -/
structure JobKeys (db : Db) : Prop where
  distinct : (db.repairJobs.map RepairJob.repairId).Nodup
  fresh : ∀ j ∈ db.repairJobs, j.repairId.n < db.nextId

/-- The tables since a repair of the version `v` began at `db₀`: rows of `v` have come at the end of the replica
table, and only the jobs for the nodes `touched` have changed. -/
structure Extended (db₀ : Db) (v : UUID) (touched : List String) (extra : List Replica) (db : Db) : Prop where
  wellFormed : db.WellFormed
  keys : JobKeys db
  nodes : db.nodes = db₀.nodes
  versions : db.versions = db₀.versions
  rows : db.replicas = db₀.replicas ++ extra
  version : ∀ r ∈ extra, r.versionId = v
  jobs : ∀ n ∉ touched, activeJob db v n = activeJob db₀ v n

section Extended

variable {db₀ db : Db} {v : UUID} {touched : List String} {extra : List Replica}

lemma Extended.refl (hw : db.WellFormed) (hk : JobKeys db) (touched : List String) : Extended db v touched [] db :=
  ⟨hw, hk, rfl, rfl, (List.append_nil _).symm, by simp, fun _ _ => rfl⟩

lemma Extended.node? (h : Extended db₀ v touched extra db) (n : String) : db.node? n = db₀.node? n := by
  rw [Db.node?, h.nodes]
  rfl

lemma Extended.version? (h : Extended db₀ v touched extra db) (i : UUID) : db.version? i = db₀.version? i := by
  rw [Db.version?, h.versions]
  rfl

lemma Extended.touch (h : Extended db₀ v touched extra db) {touched' : List String} (hsub : touched ⊆ touched') :
    Extended db₀ v touched' extra db :=
  { h with jobs := fun n hn => h.jobs n fun hm => hn (hsub hm) }

lemma activeJob_amendRepairJob {i : UUID} {n : String} {f : RepairJob → RepairJob}
    (hf : ∀ j, (f j).targetNodeId = j.targetNodeId)
    (hown : ∀ j ∈ db.repairJobs, j.repairId = i → j.targetNodeId ≠ n) :
    activeJob (db.amendRepairJob i f) v n = activeJob db v n := by
  unfold activeJob Db.amendRepairJob Table.amend
  rw [List.find?_map]
  -- A job for `n` is not the amended one, so the search meets the same jobs and finds the same one.
  have hsame : ∀ j ∈ db.repairJobs, j.targetNodeId = n → (if j.repairId = i then f j else j) = j := by
    intro j hj hn
    rw [if_neg]
    exact fun hi => hown j hj hi hn
  have hfind : db.repairJobs.find? ((fun j => decide (j.versionId = v ∧ j.targetNodeId = n ∧ Active j.status)) ∘
      fun j => if j.repairId = i then f j else j) =
      db.repairJobs.find? (fun j => decide (j.versionId = v ∧ j.targetNodeId = n ∧ Active j.status)) := by
    refine List.find?_congr fun j hj => ?_
    by_cases hn : j.targetNodeId = n
    · simp [hsame j hj hn]
    · have hn' : (if j.repairId = i then f j else j).targetNodeId ≠ n := by
        split_ifs
        · rwa [hf]
        · exact hn
      simp [hn, hn']
  rw [hfind]
  cases hfound : db.repairJobs.find? (fun j => decide (j.versionId = v ∧ j.targetNodeId = n ∧ Active j.status)) with
  | none => rfl
  | some j =>
    have hj := List.find?_some hfound
    simp only [decide_eq_true_eq] at hj
    exact congrArg some (hsame j (List.mem_of_find?_eq_some hfound) hj.2.1)

lemma Extended.amendRepairJob (h : Extended db₀ v touched extra db) {i : UUID} {f : RepairJob → RepairJob}
    (hid : ∀ j, (f j).repairId = j.repairId) (hf : ∀ j, (f j).targetNodeId = j.targetNodeId)
    (hown : ∀ j ∈ db.repairJobs, j.repairId = i → j.targetNodeId ∈ touched) :
    Extended db₀ v touched extra (db.amendRepairJob i f) where
  wellFormed := h.wellFormed.frame rfl rfl le_rfl
  keys := by
    refine ⟨Table.nodup_amend (f := f) hid h.keys.distinct, fun j hj => ?_⟩
    obtain ⟨j', hj', rfl⟩ := Table.mem_amend.mp hj
    split_ifs
    · rw [hid]
      exact h.keys.fresh j' hj'
    · exact h.keys.fresh j' hj'
  nodes := h.nodes
  versions := h.versions
  rows := h.rows
  version := h.version
  jobs n hn := by
    have hother : ∀ j ∈ db.repairJobs, j.repairId = i → j.targetNodeId ≠ n := fun j hj hi he => hn (he ▸ hown j hj hi)
    rw [activeJob_amendRepairJob hf hother]
    exact h.jobs n hn

lemma Extended.insertRepairJob (h : Extended db₀ v touched extra db) {job : RepairJob} (hid : job.repairId = db.newUuid)
    (htarget : job.targetNodeId ∈ touched) : Extended db₀ v touched extra (insertRepairJob job db) where
  wellFormed := h.wellFormed.frame rfl rfl (Nat.le_succ _)
  keys := by
    refine ⟨Table.nodup_append_fresh h.keys.distinct fun j hj he => ?_, fun j hj => ?_⟩
    · have hlt := h.keys.fresh j hj
      rw [he, hid] at hlt
      exact absurd hlt (lt_irrefl _)
    · rcases List.mem_append.mp hj with hj | hj
      · exact (h.keys.fresh j hj).trans (Nat.lt_succ_self _)
      · rw [List.mem_singleton.mp hj, hid]
        exact Nat.lt_succ_self _
  nodes := h.nodes
  versions := h.versions
  rows := h.rows
  version := h.version
  jobs n hn := by
    have hne : job.targetNodeId ≠ n := fun he => hn (he ▸ htarget)
    rw [← h.jobs n hn]
    simp [activeJob, Repair.insertRepairJob, hne]

lemma Extended.insertReplica (h : Extended db₀ v touched extra db) {n : String} (hfree : db.replicaOn? v n = none) :
    Extended db₀ v touched (extra ++ [{ replicaId := db.newUuid, versionId := v, nodeId := n }])
      (Metadata.insertReplica v n db) where
  wellFormed := h.wellFormed.insert hfree
  keys := ⟨h.keys.distinct, fun j hj => (h.keys.fresh j hj).trans (Nat.lt_succ_self _)⟩
  nodes := h.nodes
  versions := h.versions
  rows := by
    simp only [Metadata.insertReplica, h.rows, List.append_assoc]
  version r hr := by
    rcases List.mem_append.mp hr with hr | hr
    · exact h.version r hr
    · rw [List.mem_singleton.mp hr]
  jobs := h.jobs

/-- Only the last row changes. -/
lemma Extended.amendReplica {r : Replica} (h : Extended db₀ v touched (extra ++ [r]) db) {f : Replica → Replica}
    (hid : ∀ r, (f r).replicaId = r.replicaId) (hplace : ∀ r, (f r).place = r.place) :
    Extended db₀ v touched (extra ++ [f r]) (db.amendReplica r.replicaId f) where
  wellFormed := h.wellFormed.amend _ hid hplace
  keys := ⟨h.keys.distinct, h.keys.fresh⟩
  nodes := h.nodes
  versions := h.versions
  rows := by
    have hids := h.wellFormed.replicaIds
    rw [h.rows, ← List.append_assoc] at hids
    rw [Db.amendReplica, h.rows, ← List.append_assoc, Table.amend_middle hids, ← List.append_assoc]
  version s hs := by
    rcases List.mem_append.mp hs with hs | hs
    · exact h.version s (List.mem_append_left _ hs)
    · have hversion : (f r).versionId = r.versionId := congrArg Prod.fst (hplace r)
      rw [List.mem_singleton.mp hs, hversion]
      exact h.version r (List.mem_append_right _ (List.mem_singleton.mpr rfl))
  jobs := h.jobs

end Extended

/-- The row that a job creates on a node without one. -/
def openedRow (replicaId versionId : UUID) (nodeId : String) : Replica :=
  { replicaId := replicaId, versionId := versionId, nodeId := nodeId, status := .repairing }

/-- The row is created, unless the node has a name that `create_replica` refuses. -/
lemma replicaForTarget_vacant {db : Db} {job : RepairJob} {version : Version} {node : StorageNode}
    (hw : db.WellFormed) (hversion : db.version? job.versionId = some version)
    (hnode : db.node? job.targetNodeId = some node) (hfree : db.replicaOn? job.versionId job.targetNodeId = none)
    (hname : job.targetNodeId ≠ "") :
    (replicaForTarget job).run db = .ok (openedRow db.newUuid job.versionId job.targetNodeId,
      (insertReplica job.versionId job.targetNodeId db).amendReplica db.newUuid (Replica.enter .repairing)) := by
  have hstrip : strip job.targetNodeId = job.targetNodeId := by
    have hid : node.nodeId = job.targetNodeId := Table.lookup_key hnode
    rw [← hid]
    exact hw.nodeIds node (Table.lookup_mem hnode)
  have hvalid : validateNodeId (.value job.targetNodeId) = .ok job.targetNodeId := by
    simp [validateNodeId, validateNonEmpty, hstrip, hname]
  let row : Replica := { replicaId := db.newUuid, versionId := job.versionId, nodeId := job.targetNodeId }
  have hcreate : (createReplica (.value job.versionId) (.value job.targetNodeId)).run db =
      .ok (row, insertReplica job.versionId job.targetNodeId db) := by
    simp [createReplica, hvalid, bindArg, hversion, hnode, hfree, row]
  have hrow : (insertReplica job.versionId job.targetNodeId db).replica? row.replicaId = some row :=
    Table.lookup_of_mem (hw.insert hfree).replicaIds (List.mem_append_right _ (List.mem_singleton.mpr rfl))
  have hset : (setReplicaState (.value row.replicaId) (.value .repairing)).run (insertReplica job.versionId
      job.targetNodeId db) = .ok (row.enter .repairing, _) :=
    setReplicaState_along hrow (by simp [row]) (by simp [row, replicaStateTransitions])
  simp only [replicaForTarget, findOrCreateReplica]
  simp [hfree, hcreate, row] at hset ⊢
  exact hset

lemma replicaForTarget_unnamed {db : Db} {job : RepairJob} {node : StorageNode} (hw : db.WellFormed)
    (hnode : db.node? job.targetNodeId = some node) (hfree : db.replicaOn? job.versionId job.targetNodeId = none)
    (hname : job.targetNodeId = "") : ∃ e, (replicaForTarget job).run db = .error e := by
  have hstrip : strip "" = "" := by
    have hid : node.nodeId = "" := (Table.lookup_key hnode).trans hname
    rw [← hid]
    exact hw.nodeIds node (Table.lookup_mem hnode)
  cases hrun : (replicaForTarget job).run db with
  | error e => exact ⟨e, rfl⟩
  | ok x =>
    rw [replicaForTarget] at hrun
    obtain ⟨r, db₁, hfind, -⟩ := Tx.run_bind.mp hrun
    rw [findOrCreateReplica, Tx.bind_read, hfree] at hfind
    obtain ⟨-, n, -, hvalid, -⟩ := createReplica_ok hfind
    rw [hname] at hvalid
    simp [validateNodeId, validateNonEmpty, hstrip] at hvalid

/-- What becomes of it once the bytes on the node have been verified. -/
def mendedRow (replicaId : UUID) (version : Version) (nodeId : String) (now : Time) : Replica :=
  ((openedRow replicaId version.versionId nodeId).enter .healthy).verify now version.checksum version.sizeBytes

/-- The job names a `HEALTHY` row with a checksum as its source, on a node of the table. -/
def Sourced (db : Db) (job : RepairJob) : Prop :=
  ((healthySource db job).bind Replica.checksum).isSome ∧ (db.node? job.sourceNodeId).isSome

/-- The storage calls of a repair: they end with what was verified on the target. -/
def rebuildBytes (job : RepairJob) (version : Version) : Job Blob := do
  let verified ← Job.verify job.sourceNodeId version.versionId
  matchesMetadata verified version "Repair source verification does not match metadata."
  Job.delete job.targetNodeId version.versionId
  Job.copy job.sourceNodeId job.targetNodeId version.versionId
  let verified ← Job.verify job.targetNodeId version.versionId
  matchesMetadata verified version "Repair target verification does not match metadata."
  pure verified

lemma rebuildTarget_eq (job : RepairJob) (version : Version) (replicaId : UUID) :
    rebuildTarget job version replicaId = (rebuildBytes job version >>= fun verified => Job.now >>= fun now =>
      transaction (markVerified Replica.status now replicaId verified.checksum verified.sizeBytes) >>= fun _ =>
        pure ()) := by
  simp only [rebuildTarget, rebuildBytes, Script.bind_assoc]
  rfl

section Jobs

variable {ρ : Type} {answers : ∀ {β : Type}, Request β → ρ → β → ρ → Prop} {p : Point Db ρ Note} {db₀ : Db} {v : UUID}
  {touched : List String} {extra : List Replica}

/-- What the session sees; and all along the run the rows of `db₀` have stayed as they were. -/
structure Along (db₀ : Db) (v : UUID) (touched : List String) (extra : List Replica) (p : Point Db ρ Note) : Prop where
  view : Extended db₀ v touched extra p.session.view
  kept : Throughout (fun _ db => db₀.replicas <+: db.replicas) p

lemma Along.look (h : Along db₀ v touched extra p) : Along db₀ v touched extra p.look := ⟨h.view, h.kept.look⟩

lemma Along.turn (h : Along db₀ v touched extra p) (w : ρ) : Along db₀ v touched extra (p.turn w) :=
  ⟨h.view, h.kept.turn fun _ => id⟩

lemma Along.commit (h : Along db₀ v touched extra p) {f : Db → Db} {extra' : List Replica}
    (hf : Extended db₀ v touched extra' (f p.session.view)) :
    Along db₀ v touched extra' (p.move (p.session.commit f)) := by
  have hkept : db₀.replicas <+: (f p.session.view).replicas := ⟨extra', hf.rows.symm⟩
  exact ⟨hf, h.kept.concat hkept hkept⟩

lemma Along.transaction (h : Along db₀ v touched extra p) {α : Type} {body : Metadata.Tx α} {a : α} {db : Db}
    {extra' : List Replica} (hrun : body.run p.session.view = .ok (a, db)) (hdb : Extended db₀ v touched extra' db) :
    wp answers (Post.seq (fun b q => b = a ∧ q.session.view = db ∧ Along db₀ v touched extra' q ∧ q.world = p.world)
      fun _ _ => False) (Script.transaction body) p := by
  have hkept : wp answers (fun _ => Throughout (fun _ db => db₀.replicas <+: db.replicas)) (Script.transaction body) p :=
    wp_transaction_throughout h.kept fun b t ht => by
      cases hrun.symm.trans ht
      exact ⟨extra', hdb.rows.symm⟩
  have hview : wp answers (Post.seq (fun b q => b = a ∧ q.session.view = db ∧ q.world = p.world) fun _ _ => False)
      (Script.transaction body) p := wp_transaction_ok hrun fun s hs => ⟨rfl, hs, rfl⟩
  refine wp_mono ?_ (wp_and hkept hview)
  rintro r q ⟨hkept, hview⟩
  cases r with
  | error e => exact hview
  | ok b =>
    obtain ⟨rfl, hview, hworld⟩ := hview
    exact ⟨rfl, hview, ⟨hview ▸ hdb, hkept⟩, hworld⟩

/-- What the storage calls do to the world is all that has to be said of them. -/
lemma wp_rebuildTarget {job : RepairJob} {version : Version} {replicaId : UUID} {n : String} {W : Time → ρ → Prop}
    {E : Point Db ρ Note → Prop} (hversion : db₀.version? v = some version)
    (h : Along db₀ v touched (extra ++ [openedRow replicaId v n]) p)
    (hbytes : wp answers (Post.seq (fun b q => b.Matches version ∧ q.session = p.session ∧
      Throughout (fun _ db => db₀.replicas <+: db.replicas) q ∧ ∀ now w, answers .now q.world now w → W now w)
      fun _ => E) (rebuildBytes job version) p) :
    wp answers (Post.seq (fun _ q => ∃ now, Along db₀ v touched (extra ++ [mendedRow replicaId version n now]) q ∧
      W now q.world) fun _ => E) (rebuildTarget job version replicaId) p := by
  have hid : version.versionId = v := Table.lookup_key hversion
  rw [rebuildTarget_eq]
  refine wp_bind.mpr (wp_mono ?_ hbytes)
  intro r q hq
  cases r with
  | error e => exact hq
  | ok b =>
  obtain ⟨⟨-, hchecksum, hsize⟩, hsession, hkept, hworld⟩ := hq
  rw [Post.seq_ok, hchecksum, hsize]
  refine wp_bind.mpr (wp_request.mpr fun now w hw => ?_)
  have hq : Along db₀ v touched (extra ++ [openedRow replicaId v n]) (q.turn w) := by
    refine ⟨?_, hkept.turn fun _ => id⟩
    rw [Point.turn, hsession]
    exact h.view
  have hmem : openedRow replicaId v n ∈ (q.turn w).session.view.replicas := by
    rw [hq.view.rows]
    simp
  have hrow : (q.turn w).session.view.replica? (openedRow replicaId v n).replicaId = some (openedRow replicaId v n) :=
    Table.lookup_of_mem hq.view.wellFormed.replicaIds hmem
  have hfound : (q.turn w).session.view.version? (openedRow replicaId v n).versionId = some version :=
    (hq.view.version? v).trans hversion
  have hmark := markVerified_along now hrow hfound (Or.inr rfl)
  refine wp_bind.mpr (wp_mono ?_ (hq.transaction hmark (hq.view.amendReplica (fun _ => rfl) fun _ => rfl)))
  rintro r q' hq'
  cases r with
  | error e => exact hq'.elim
  | ok _ =>
    obtain ⟨-, -, hq', hsame⟩ := hq'
    refine wp_pure.mpr ⟨now, ?_, hsame ▸ hworld now w hw⟩
    rwa [mendedRow, hid]

lemma keeps_rebuildTarget_jobs (jobs : List RepairJob) (job : RepairJob) (version : Version) (replicaId : UUID) :
    Keeps answers (fun q : Point Db ρ Note => q.session.view.repairJobs = jobs) (rebuildTarget job version replicaId) := by
  have hclient : ∀ {α : Type} (x : Except ClientError α),
      Keeps answers (fun q : Point Db ρ Note => q.session.view.repairJobs = jobs) (Job.ofClient x) := by
    intro α x
    cases x with
    | ok a => exact keeps_pure a
    | error e => exact keeps_raise _
  have hcall : ∀ {α : Type} (q : Request (Except ClientError α)) (f : Except ClientError α → Except ClientError α),
      Keeps answers (fun q : Point Db ρ Note => q.session.view.repairJobs = jobs)
        (request q >>= fun x => Job.ofClient (f x)) :=
    fun q f => keeps_bind (keeps_request (fun _ _ h => h) q) fun _ => hclient _
  refine keeps_bind (hcall _ raiseOnInvalid) fun _ => keeps_bind (keeps_require _ _) fun _ => ?_
  refine keeps_bind (hcall _ id) fun _ => keeps_bind ?_ fun _ => ?_
  · exact keeps_bind (keeps_request (fun _ _ h => h) _) fun _ => keeps_bind (hclient _) fun _ => hcall _ id
  refine keeps_bind (hcall _ raiseOnInvalid) fun _ => keeps_bind (keeps_require _ _) fun _ => ?_
  refine keeps_bind (keeps_request (fun _ _ h => h) _) fun now => keeps_bind ?_ fun _ => keeps_pure _
  intro q hq
  refine wp_transaction_view (fun a s hrun => ?_) fun e s _ hs => ?_
  · obtain ⟨r, version, -, -, -, -, -, -, hs⟩ := markVerified_ok hrun
    change s.view.repairJobs = jobs
    rw [hs]
    exact hq
  · change s.view.repairJobs = jobs
    rw [hs]
    exact hq

/-- The job with this identifier is for one of these nodes. -/
def Owns (touched : List String) (repairId : UUID) (db : Db) : Prop :=
  ∀ j ∈ db.repairJobs, j.repairId = repairId → j.targetNodeId ∈ touched

lemma Owns.amend {db : Db} {i : UUID} (h : Owns touched i db) {f : RepairJob → RepairJob}
    (hid : ∀ j, (f j).repairId = j.repairId) (hf : ∀ j, (f j).targetNodeId = j.targetNodeId) :
    Owns touched i (db.amendRepairJob i f) := by
  intro j hj he
  obtain ⟨j', hj', rfl⟩ := Table.mem_amend.mp hj
  split_ifs at he ⊢
  · rw [hf]
    exact h j' hj' (hid j' ▸ he)
  · exact h j' hj' he

lemma Along.amendRepairJob (h : Along db₀ v touched extra p) {i : UUID} (hown : Owns touched i p.session.view)
    {f : RepairJob → RepairJob} (hid : ∀ j, (f j).repairId = j.repairId)
    (hf : ∀ j, (f j).targetNodeId = j.targetNodeId) :
    Along db₀ v touched extra (p.move (p.session.commit fun db => db.amendRepairJob i f)) :=
  h.commit (h.view.amendRepairJob hid hf hown)

section Running

variable {m : ℕ} {job : RepairJob} {version : Version} {target : StorageNode} {W : Time → ρ → Prop}
  {E : Point Db ρ Note → Prop}

lemma wp_rejectJob {R : RepairResult → Point Db ρ Note → Prop} {error : String} {e : VaultError}
    (h : Along db₀ v touched extra p) (hown : Owns touched job.repairId p.session.view)
    (hE : ∀ q, Along db₀ v touched extra q → q.world = p.world → E q) :
    wp answers (Post.seq R fun _ => E) (rejectJob job error e) p :=
  wp_bind.mpr (wp_save.mpr (wp_raise.mpr (hE _ (h.amendRepairJob hown (fun _ => rfl) fun _ => rfl) rfl)))

/-- The row that the job has opened is verified, or the job raises. -/
lemma wp_startJob_vacant {replicaId : UUID}
    (hE : ∀ q i status error, E q → E (q.move (q.session.commit (markJob i status error))))
    (h : Along db₀ v touched (extra ++ [openedRow replicaId v job.targetNodeId]) p)
    (hown : Owns touched job.repairId p.session.view) (htarget : db₀.node? job.targetNodeId = some target)
    (hhealthy : target.status = .healthy)
    (hrefused : db₀.node? job.sourceNodeId = none → ∀ q extra', Along db₀ v touched extra' q → q.world = p.world → E q)
    (hrebuild : (db₀.node? job.sourceNodeId).isSome → ∀ q,
      Along db₀ v touched (extra ++ [openedRow replicaId v job.targetNodeId]) q → q.world = p.world →
      wp answers (Post.seq (fun _ q' => ∃ now, Along db₀ v touched
        (extra ++ [mendedRow replicaId version job.targetNodeId now]) q' ∧ W now q'.world) fun _ => E)
        (rebuildTarget job.start version replicaId) q) :
    wp answers (Post.seq (fun result q => result = repairResult (job.start.mark .succeeded none) ∧ ∃ now,
      Along db₀ v touched (extra ++ [mendedRow replicaId version job.targetNodeId now]) q ∧ W now q.world) fun _ => E)
      (startJob m job version (openedRow replicaId v job.targetNodeId)) p := by
  refine wp_bind.mpr (wp_query.mpr ?_)
  rw [Post.seq_ok, h.view.node?, h.view.node?, htarget]
  cases hsource : db₀.node? job.sourceNodeId with
  | none => exact wp_rejectJob h.look hown fun q hq hw => hrefused hsource q _ hq hw
  | some source =>
  refine wp_ite.mpr ⟨fun hno => absurd hhealthy hno, fun _ => ?_⟩
  refine wp_bind.mpr (wp_save.mpr (wp_handle.mpr (wp_bind.mpr ?_)))
  have hstart := h.look.amendRepairJob hown (f := RepairJob.start) (fun _ => rfl) fun _ => rfl
  have hown' : Owns touched job.repairId (p.session.view.amendRepairJob job.repairId RepairJob.start) :=
    hown.amend (fun _ => rfl) fun _ => rfl
  refine wp_mono ?_ (wp_and (hrebuild (by simp [hsource]) _ hstart rfl) (keeps_rebuildTarget_jobs _ _ _ _ _ rfl))
  rintro r q ⟨hq, hjobs⟩
  cases r with
  | error e =>
    have hfail : ∀ error, wp answers (Post.seq (fun result q => result = repairResult (job.start.mark .succeeded none) ∧
        ∃ now, Along db₀ v touched (extra ++ [mendedRow replicaId version job.targetNodeId now]) q ∧ W now q.world)
          fun _ => E) (failJob m job.start e error) q :=
      fun error => wp_bind.mpr (wp_save.mpr (wp_raise.mpr (hE q _ _ _ hq)))
    cases e with
    | client e => exact hfail _
    | vault e => exact hfail _
    | value s => exact wp_raise.mpr hq
    | illTyped => exact wp_raise.mpr hq
    | other => exact wp_raise.mpr hq
  | ok _ =>
    obtain ⟨now, hq, hw⟩ := hq
    have howned : Owns touched job.repairId q.session.view := by
      intro j hj
      exact hown' j (hjobs ▸ hj)
    exact wp_bind.mpr (wp_save.mpr (wp_pure.mpr ⟨rfl, now, hq.amendRepairJob howned (fun _ => rfl) fun _ => rfl, hw⟩))

/-- A run of a job whose target has no row of the version: it either adds a verified row for the target, or raises. -/
lemma wp_runJob_vacant (hE : ∀ q i status error, E q → E (q.move (q.session.commit (markJob i status error))))
    (h : Along db₀ v touched extra p) (hjob : job ∈ p.session.view.repairJobs) (hactive : Active job.status)
    (hv : job.versionId = v) (hversion : db₀.version? v = some version) (htouched : job.targetNodeId ∈ touched)
    (hfree : p.session.view.replicaOn? v job.targetNodeId = none)
    (htarget : db₀.node? job.targetNodeId = some target) (hhealthy : target.status = .healthy)
    (hrefused : ¬(Sourced p.session.view job ∧ job.targetNodeId ≠ "") → ∀ q extra', Along db₀ v touched extra' q →
      q.world = p.world → E q)
    (hrebuild : Sourced p.session.view job → ∀ replicaId q,
      Along db₀ v touched (extra ++ [openedRow replicaId v job.targetNodeId]) q → q.world = p.world →
      wp answers (Post.seq (fun _ q' => ∃ now, Along db₀ v touched
        (extra ++ [mendedRow replicaId version job.targetNodeId now]) q' ∧ W now q'.world) fun _ => E)
        (rebuildTarget job.start version replicaId) q) :
    wp answers (Post.seq (fun result q => result = repairResult (job.start.mark .succeeded none) ∧ ∃ replicaId now,
      Along db₀ v touched (extra ++ [mendedRow replicaId version job.targetNodeId now]) q ∧ W now q.world) fun _ => E)
      (runJob m job.repairId) p := by
  have hown : Owns touched job.repairId p.session.view := by
    intro j hj hid
    rwa [Table.eq_of_key h.view.keys.distinct hj hjob hid]
  have hrow : p.session.view.repairJob? job.repairId = some job := Table.lookup_of_mem h.view.keys.distinct hjob
  have hver : p.session.view.version? job.versionId = some version := by rw [hv, h.view.version?, hversion]
  refine wp_bind.mpr (wp_query.mpr (wp_bind.mpr (wp_demand.mpr ⟨fun j hj => ?_, fun hnone => ?_⟩)))
  swap
  · cases hrow.symm.trans hnone
  cases hrow.symm.trans hj
  have hbegun : ¬(job.status = .succeeded ∨ job.status = .failed ∧ m ≤ job.attempts) := by
    rcases hactive with hs | hs <;> simp [hs]
  refine wp_ite.mpr ⟨fun hdone => absurd hdone hbegun, fun _ => ?_⟩
  refine wp_bind.mpr (wp_demand.mpr ⟨fun version' hversion' => ?_, fun hnone => ?_⟩)
  swap
  · cases hver.symm.trans hnone
  cases hver.symm.trans hversion'
  refine wp_ite.mpr ⟨fun hnone => ?_, fun hsome => ?_⟩
  · refine wp_rejectJob h.look hown fun q hq hw => hrefused (fun hs => ?_) q _ hq hw
    rw [Sourced, Option.isNone_iff_eq_none.mp hnone] at hs
    exact absurd hs.1.1 (by simp)
  have hnode : p.session.view.node? job.targetNodeId = some target := (h.view.node? _).trans htarget
  have hfree' : p.session.view.replicaOn? job.versionId job.targetNodeId = none := hv ▸ hfree
  refine wp_bind.mpr ?_
  by_cases hname : job.targetNodeId = ""
  · obtain ⟨e, he⟩ := replicaForTarget_unnamed h.view.wellFormed hnode hfree' hname
    have hkept : wp answers (fun _ => Throughout (fun _ db => db₀.replicas <+: db.replicas))
        (transaction (replicaForTarget job)) p.look :=
      wp_transaction_throughout h.look.kept fun a t ht => by cases he.symm.trans ht
    have hview : wp answers (Post.seq (fun _ _ => False) fun _ q => q.session.view = p.session.view ∧ q.world = p.world)
        (transaction (replicaForTarget job)) p.look :=
      wp_transaction_view (fun a s hs => by cases he.symm.trans hs) fun _ s _ hs => ⟨hs, rfl⟩
    refine wp_mono ?_ (wp_and hkept hview)
    rintro r q ⟨hkept, hview⟩
    cases r with
    | ok _ => exact hview.elim
    | error _ =>
      refine hrefused (fun hs => hs.2 hname) q extra ⟨?_, hkept⟩ hview.2
      rw [hview.1]
      exact h.view
  · have hopen : Extended db₀ v touched (extra ++ [openedRow p.session.view.newUuid v job.targetNodeId])
        ((insertReplica v job.targetNodeId p.session.view).amendReplica p.session.view.newUuid (Replica.enter .repairing)) :=
      (h.view.insertReplica hfree).amendReplica (f := Replica.enter .repairing) (fun _ => rfl) fun _ => rfl
    have hrun := replicaForTarget_vacant h.view.wellFormed hver hnode hfree' hname
    rw [hv] at hrun
    refine wp_mono ?_ (h.look.transaction hrun hopen)
    rintro r q hq
    cases r with
    | error _ => exact hq.elim
    | ok _ =>
    obtain ⟨rfl, hview, hq, hworld⟩ := hq
    have hsource : ((healthySource p.session.view job).bind Replica.checksum).isSome :=
      Option.isSome_iff_ne_none.mpr fun hnone => hsome (Option.isNone_iff_eq_none.mpr hnone)
    refine wp_mono ?_ (wp_startJob_vacant hE hq (hview ▸ hown) htarget hhealthy (fun hnone q' extra' hq' hw' => ?_)
      fun hnode q' hq' hw' => hrebuild ⟨hsource, ?_⟩ _ q' hq' (hw'.trans hworld))
    · rintro r q' hq'
      cases r with
      | error _ => exact hq'
      | ok _ => exact ⟨hq'.1, _, hq'.2⟩
    · refine hrefused (fun hs => ?_) q' extra' hq' (hw'.trans hworld)
      have hnode := hs.1.2
      rw [h.view.node?, hnone] at hnode
      cases hnode
    · rwa [h.view.node?]

end Running

end Jobs

end Vault.Repair
