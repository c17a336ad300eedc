import Vault.Health.FailureDetector
import Vault.Integrity.Condemned
import Vault.Lib.Runs
import Vault.Rebalance.Migration
import Vault.Repair.Running

/-! Unreachability is never called corruption. Each manager writes `CORRUPTED` behind a comparison of its own; all
of them go through a row that its node has just measured and found different. -/

namespace Vault.Integrity

open Vault.Common Vault.Metadata Vault.Storage Vault.Lib Vault.Lib.Script Vault.Lib.Transaction
open Vault.Lib.Transaction.Tx

section Bodies

variable {before db t : Db} {log : List Report}

lemma Honest.setReplicaState (h : Honest before log db) {i : UUID} {state : ReplicaState} {a : Replica}
    (hh : state ≠ .healthy) (hrun : (setReplicaState (.value i) (.value state)).run db = .ok (a, t))
    (hc : state = .corrupted → ∀ r ∈ db.replicas, r.replicaId = i → Condemned before log r) : Honest before log t := by
  obtain ⟨r, -, -, ⟨-, rfl⟩ | rfl⟩ := setReplicaState_row hrun
  · exact h
  · exact h.amend i (fun _ => rfl) (fun _ => rfl) fun r hr hi => ⟨fun hs => absurd hs hh, fun hs => Or.inr (hc hs r hr hi)⟩

lemma Honest.recordVerified (h : Honest before log db) {now : Time} {i : UUID} {c : Checksum} {z : ℕ} {a : Replica}
    (hrun : (recordVerified now i c z).run db = .ok (a, t)) : Honest before log t := by
  obtain ⟨r, v, -, hr, hv, -, -, -, rfl⟩ := recordVerified_ok hrun
  refine h.amend _ (fun _ => rfl) (fun _ => rfl) fun s hs hi => ⟨fun _ => ?_, Or.inl⟩
  obtain rfl := Table.eq_of_key h.inv.ids hs (Table.lookup_mem hr) hi
  exact ⟨v, hv, rfl, rfl⟩

lemma Honest.markVerified (h : Honest before log db) {seen : Replica → ReplicaState} {now : Time} {i : UUID}
    {c : Checksum} {z : ℕ} {a : Replica} (hrun : (markVerified seen now i c z).run db = .ok (a, t)) :
    Honest before log t := by
  obtain ⟨r, v, -, hr, hv, -, -, -, rfl⟩ := markVerified_ok hrun
  refine h.amend _ (fun _ => rfl) (fun _ => rfl) fun s hs hi => ⟨fun _ => ?_, fun hc => by cases hc⟩
  obtain rfl := Table.eq_of_key h.inv.ids hs (Table.lookup_mem hr) hi
  exact ⟨v, hv, rfl, rfl⟩

lemma Honest.createReplica (h : Honest before log db) {i : Arg UUID} {n : Arg String} {a : Replica}
    (hrun : (createReplica i n).run db = .ok (a, t)) : Honest before log t := by
  obtain ⟨i, n, -, -, -, -, -, rfl⟩ := createReplica_ok hrun
  exact h.insert i n

lemma Honest.removeReplica (h : Honest before log db) {i : Arg UUID} {a : Replica}
    (hrun : (removeReplica i).run db = .ok (a, t)) : Honest before log t := by
  obtain ⟨r, -, -, -, rfl⟩ := removeReplica_ok hrun
  exact h.delete r.replicaId

lemma Honest.onlyNodes (h : Honest before log db) (hn : OnlyNodes db t) : Honest before log t := by
  obtain ⟨nodes, k, hk, rfl⟩ := hn
  exact h.frame rfl rfl hk

lemma Honest.replicaForTarget (h : Honest before log db) {job : RepairJob} {a : Replica}
    (hrun : (Repair.replicaForTarget job).run db = .ok (a, t)) : Honest before log t := by
  unfold Repair.replicaForTarget at hrun
  obtain ⟨r, db₁, hfind, hrun⟩ := run_bind.mp hrun
  have h₁ : Honest before log db₁ := by
    unfold Repair.findOrCreateReplica at hfind
    rw [bind_read] at hfind
    split at hfind
    · cases hfind
      exact h
    · exact h.createReplica hfind
  obtain ⟨-, hrun⟩ := bind_require.mp hrun
  rw [run_ite] at hrun
  rcases hrun with ⟨-, hrun⟩ | ⟨-, hrun⟩
  · exact h₁.setReplicaState (by decide) hrun (by simp)
  · obtain ⟨-, hrun⟩ := bind_require.mp hrun
    cases hrun
    exact h₁

end Bodies

abbrev KeepsHonest (before : Db) {α : Type} (x : Job α) : Prop := Keeps recorded (Throughout (Honest before)) x

section Parts

variable {before : Db}

lemma keeps_honest_request {α : Type} (q : Request α) : KeepsHonest before (request q) :=
  keeps_request_throughout (fun _ _ _ _ _ hq h => h.mono (recorded_grows hq)) q

lemma keeps_ofClient {α : Type} (x : Except ClientError α) : KeepsHonest before (Job.ofClient x) := by
  cases x with
  | ok a => exact keeps_pure a
  | error e => exact keeps_raise _

lemma keeps_verify (n : String) (i : UUID) : KeepsHonest before (Job.verify n i) :=
  keeps_bind (keeps_honest_request _) fun _ => keeps_ofClient _

lemma keeps_delete (n : String) (i : UUID) : KeepsHonest before (Job.delete n i) :=
  keeps_bind (keeps_honest_request _) fun _ => keeps_ofClient _

lemma keeps_copy (n m : String) (i : UUID) : KeepsHonest before (Job.copy n m i) :=
  keeps_bind (keeps_honest_request _) fun _ => keeps_bind (keeps_ofClient _) fun _ =>
    keeps_bind (keeps_honest_request _) fun _ => keeps_ofClient _

lemma keeps_now : KeepsHonest before Job.now := keeps_honest_request _

lemma keeps_setState (i : UUID) {state : ReplicaState} (hh : state ≠ .healthy) (hc : state ≠ .corrupted) :
    KeepsHonest before (transaction (setReplicaState (.value i) (.value state))) :=
  keeps_transaction_throughout fun _ _ _ _ h hrun => h.setReplicaState hh hrun fun he => absurd he hc

lemma keeps_record (now : Time) (i : UUID) (c : Checksum) (z : ℕ) :
    KeepsHonest before (transaction (recordVerified now i c z)) :=
  keeps_transaction_throughout fun _ _ _ _ h => h.recordVerified

lemma keeps_mark (seen : Replica → ReplicaState) (now : Time) (i : UUID) (c : Checksum) (z : ℕ) :
    KeepsHonest before (transaction (markVerified seen now i c z)) :=
  keeps_transaction_throughout fun _ _ _ _ h => h.markVerified

/-- A commit of job rows only. -/
lemma keeps_saveJobs {f : Db → Db} (hr : ∀ db, (f db).replicas = db.replicas)
    (hv : ∀ db, (f db).versions = db.versions) (hn : ∀ db, db.nextId ≤ (f db).nextId) :
    KeepsHonest before (save f) :=
  keeps_save_throughout fun _ db h => h.frame (hr db) (hv db) (hn db)

lemma keeps_honest_schedule (i : UUID) (rf : ℤ) (reason : Arg String) (preferred : Option Replica) :
    KeepsHonest before (Repair.schedule i rf reason preferred) := by
  refine keeps_bind keeps_query_throughout fun db => ?_
  split
  · exact keeps_raise _
  · exact keeps_pure _
  · exact keeps_pure _
  · exact keeps_bind (keeps_saveJobs (fun _ => rfl) (fun _ => rfl) fun _ => Nat.le_succ _) fun _ => keeps_pure _

end Parts

section Verification

variable {before : Db}

/-- A row that its node measures differently may be marked. -/
lemma wp_condemn {p : Point Db (List Report) Note} (hp : Throughout (Honest before) p) (i : UUID)
    (hc : ∀ r ∈ p.session.view.replicas, r.replicaId = i → Condemned before p.world r) :
    wp recorded (fun _ => Throughout (Honest before))
      (transaction (setReplicaState (.value i) (.value .corrupted)) : Job Replica) p :=
  wp_transaction_throughout hp fun _ _ hrun => hp.view.setReplicaState (by decide) hrun fun _ => hc

lemma Agrees.of_matches {replica : Replica} {version : Version} {measured : Blob} (hm : measured.Matches version)
    (hc : replica.checksum = some version.checksum) (hz : replica.sizeBytes = some version.sizeBytes) :
    Agrees replica version measured := by
  refine ⟨hm, ?_, ?_⟩
  · rw [hc]
    exact hm.2.1
  · rw [hz]
    exact hm.2.2

lemma keeps_verifyReplica (rf : ℕ) (i : UUID) : KeepsHonest before (verifyReplica rf i) := by
  intro p hp
  refine wp_bind.mpr (wp_query.mpr ?_)
  refine wp_bind.mpr (wp_demand.mpr ⟨fun replica hr => ?_, fun _ => hp.look⟩)
  refine wp_bind.mpr (wp_demand.mpr ⟨fun version hv => ?_, fun _ => hp.look⟩)
  refine wp_bind.mpr (wp_demand.mpr ⟨fun node hn => ?_, fun _ => hp.look⟩)
  refine wp_ite.mpr ⟨fun _ => wp_pure.mpr hp.look, fun hchecked => ?_⟩
  have hhealthy : replica.status = .healthy := by
    by_contra hne
    exact hchecked (Or.inr (Or.inr hne))
  have hrow : replica ∈ p.session.view.replicas := Table.lookup_mem hr
  refine wp_bind.mpr (wp_bind.mpr (wp_request.mpr fun answer log hlog => ?_))
  have hp' : Throughout (Honest before) (p.look.turn log) :=
    hp.look.turn fun _ h => h.mono (recorded_grows hlog)
  cases answer with
  | error e => exact wp_raise.mpr hp'
  | ok measured =>
    refine wp_pure.mpr (wp_ite.mpr ⟨fun _ => ?_, fun hdiffers => ?_⟩)
    · exact (keeps_bind keeps_now fun _ => keeps_bind (keeps_record _ _ _ _) fun _ => keeps_pure _) _ hp'
    · refine wp_bind_keeps (wp_condemn hp' replica.replicaId fun r hr hi => ?_) fun _ =>
        keeps_bind (keeps_honest_schedule _ _ _ _) fun _ => keeps_pure _
      obtain rfl := Table.eq_of_key hp.view.inv.ids hr hrow hi
      obtain ⟨v, hv', hc, hz⟩ := hp.view.inv.evidence r hrow hhealthy
      cases hv.symm.trans hv'
      have hid : version.versionId = r.versionId := Table.lookup_key hv
      have hnode : node.nodeId = r.nodeId := Table.lookup_key hn
      refine ⟨version, (hp.view.version? _).symm.trans hv, measured, ?_, fun hm => hdiffers (.of_matches hm hc hz)⟩
      rw [hlog.2, hid, hnode]
      exact List.mem_append_right _ (List.mem_singleton_self _)

end Verification

section Reconciliation

variable {before : Db} {rf : ℕ} {node : StorageNode} {replica : Replica}

lemma keeps_markVerifiedReplica (replica : Replica) (measured : Blob) :
    KeepsHonest before (Recovery.markVerifiedReplica replica measured) := by
  refine keeps_ite (fun _ => ?_) fun _ => keeps_ite (fun _ => keeps_pure _) fun _ => ?_
  · exact keeps_bind keeps_now fun _ => keeps_bind (keeps_record _ _ _ _) fun _ => keeps_pure _
  · have hmark : KeepsHonest before (do
        let now ← Job.now
        let _ ← transaction
          (markVerified Replica.status now replica.replicaId measured.checksum measured.sizeBytes)) :=
      keeps_bind keeps_now fun _ => keeps_bind (keeps_mark _ _ _ _ _) fun _ => keeps_pure _
    refine keeps_ite (fun _ => ?_) fun _ => ?_
    · exact keeps_bind (keeps_setState _ (by decide) (by decide)) fun _ => hmark
    · exact keeps_bind (keeps_require _ _) fun _ => hmark

lemma keeps_recovery_scheduleRepair (i : UUID) (replica : Replica) (reason : String) :
    KeepsHonest before (Recovery.scheduleRepair rf i replica reason) := by
  refine keeps_handle (keeps_bind (keeps_honest_schedule _ _ _ _) fun _ => keeps_pure _) fun e => ?_
  cases e with
  | vault e => exact keeps_pure _
  | _ => exact keeps_raise _

/-- The rows of the start keep their places, so what is said of the listed replica holds of its row. -/
lemma Honest.row_place (hb : EvidenceInv before) {log : List Report} {db : Db} (h : Honest before log db)
    (hr : replica ∈ before.replicas) {r : Replica} (hrow : r ∈ db.replicas) (hi : r.replicaId = replica.replicaId) :
    r.place = replica.place := by
  obtain ⟨old, hold, hoid, hplace⟩ := h.placed r hrow (hi ▸ hb.fresh replica hr)
  rw [Table.eq_of_key hb.ids hr hold (hi.symm.trans hoid.symm)]
  exact hplace.symm

lemma wp_repairDamaged {p : Point Db (List Report) Note} (hp : Throughout (Honest before) p) (version : Version)
    {state : ReplicaState} (hh : state ≠ .healthy) (reason : String) (acc : Recovery.RecoveryResult)
    (hc : state = .corrupted → ∀ r ∈ p.session.view.replicas, r.replicaId = replica.replicaId →
      Condemned before p.world r) :
    wp recorded (fun _ => Throughout (Honest before))
      (Recovery.repairDamaged rf version replica state reason acc) p := by
  unfold Recovery.repairDamaged
  refine wp_ite.mpr ⟨fun _ => ?_, fun _ => ?_⟩
  · refine wp_bind_keeps ?_ fun _ => keeps_bind (keeps_recovery_scheduleRepair _ _ _) fun _ => keeps_pure _
    exact wp_transaction_throughout hp fun _ _ hrun => hp.view.setReplicaState hh hrun hc
  · exact keeps_bind (keeps_recovery_scheduleRepair _ _ _) (fun _ => keeps_pure _) p hp

lemma keeps_reconcileReplica (hb : EvidenceInv before) (hr : replica ∈ before.replicas)
    (hnode : node.nodeId = replica.nodeId) (acc : Recovery.RecoveryResult) :
    KeepsHonest before (Recovery.reconcileReplica rf node replica acc) := by
  intro p hp
  refine wp_bind.mpr (wp_query.mpr ?_)
  refine wp_bind.mpr (wp_demand.mpr ⟨fun version hv => ?_, fun _ => hp.look⟩)
  have hv : p.session.view.version? replica.versionId = some version := hv
  refine wp_bind.mpr (wp_request.mpr fun answer log hlog => ?_)
  have hp' : Throughout (Honest before) (p.look.turn log) :=
    hp.look.turn fun _ h => h.mono (recorded_grows hlog)
  have hcondemn : ∀ b, answer = .ok b → ¬b.Matches version →
      ∀ r ∈ (p.look.turn log).session.view.replicas, r.replicaId = replica.replicaId →
        Condemned before (p.look.turn log).world r := by
    intro b hb' hno r hrow hi
    refine Condemned.of_place ?_ (hp.view.row_place hb hr hrow hi)
    refine ⟨version, (hp.view.version? _).symm.trans hv, b, ?_, hno⟩
    have hid : version.versionId = replica.versionId := Table.lookup_key hv
    have hrecord : (p.look.turn log).world = p.world ++ [⟨node.nodeId, version.versionId, answer⟩] := hlog.2
    rw [hrecord, hid, hnode, hb']
    exact List.mem_append_right _ (List.mem_singleton_self _)
  cases answer with
  | ok b =>
    by_cases hvalid : b.valid = true
    · simp only [Post.seq_ok, raiseOnInvalid, hvalid, if_true]
      refine wp_ite.mpr ⟨fun _ => ?_, fun hno => ?_⟩
      · exact (keeps_bind (keeps_markVerifiedReplica _ _) fun _ => keeps_pure _) _ hp'
      · exact wp_repairDamaged hp' version (by decide) _ _ fun _ => hcondemn b rfl hno
    · simp only [Post.seq_ok, raiseOnInvalid, hvalid]
      refine wp_bind_keeps ?_ fun _ => keeps_pure _
      exact wp_repairDamaged hp' version (by decide) _ _ fun _ => hcondemn b rfl fun hm => hvalid hm.1
  | error e =>
    have hkind : e.kind ≠ .integrity := hlog.1.blameless e rfl
    simp only [Post.seq_ok, raiseOnInvalid]
    split
    · exact wp_repairDamaged hp' version (by decide) _ _ (by simp)
    · next hk => exact absurd hk hkind
    · exact wp_pure.mpr hp'

lemma keeps_reconcileReplicas (hb : EvidenceInv before) {replicas : List Replica} (hr : replicas ⊆ before.replicas)
    (hnode : ∀ r ∈ replicas, node.nodeId = r.nodeId) (acc : Recovery.RecoveryResult) :
    KeepsHonest before (Recovery.reconcileReplicas rf node replicas acc) := by
  induction replicas generalizing acc with
  | nil => exact keeps_pure acc
  | cons replica replicas ih =>
    refine keeps_bind (keeps_reconcileReplica hb (hr List.mem_cons_self) (hnode replica List.mem_cons_self) acc)
      fun acc => ih (fun r hm => hr (List.mem_cons_of_mem _ hm)) (fun r hm => hnode r (List.mem_cons_of_mem _ hm)) acc

lemma wp_reconcileNode (hb : EvidenceInv before) (rf : ℕ) (nodeId : String) :
    wp recorded (fun _ => Throughout (Honest before)) (Recovery.reconcileNode rf nodeId) (Point.start before []) := by
  have hp : Throughout (Honest before) (Point.start before [] : Point Db (List Report) Note) := ⟨.start hb, .start hb, by simp [Point.start]⟩
  refine wp_bind.mpr (wp_query.mpr ?_)
  refine wp_bind.mpr (wp_demand.mpr ⟨fun node hn => ?_, fun _ => hp.look⟩)
  refine wp_bind.mpr (wp_require.mpr ⟨fun _ => ?_, fun _ => hp.look⟩)
  have hlisted : ∀ r ∈ Recovery.knownReplicas before nodeId, r ∈ before.replicas ∧ r.nodeId = nodeId := by
    intro r hr
    simp only [Recovery.knownReplicas, byReplicaId, List.mem_mergeSort, List.mem_filter, committedOn,
      decide_eq_true_eq] at hr
    exact ⟨hr.1.1, hr.1.2.1⟩
  refine wp_bind_keeps (keeps_reconcileReplicas hb (fun r hr => (hlisted r hr).1) (fun r hr => ?_) _ _ hp.look)
    fun _ => keeps_bind (keeps_remark_throughout _) fun _ => keeps_pure _
  rw [(hlisted r hr).2]
  exact Table.lookup_key hn

end Reconciliation

section Rebalancing

variable {before : Db}

lemma keeps_findVersion (i : UUID) : KeepsHonest before (Rebalance.findVersion i) :=
  keeps_bind keeps_query_throughout fun _ => keeps_bind (keeps_demand _ _) fun _ =>
    keeps_bind (keeps_require _ _) fun _ => keeps_pure _

lemma keeps_findNode (n : String) : KeepsHonest before (Rebalance.findNode n) :=
  keeps_bind keeps_query_throughout fun _ => keeps_demand _ _

lemma keeps_targetReplica (job : RebalanceJob) : KeepsHonest before (Rebalance.targetReplica job) := by
  refine keeps_bind (keeps_bind keeps_query_throughout fun db => ?_) fun replica => ?_
  · split
    · exact keeps_pure _
    · exact keeps_transaction_throughout fun _ _ _ _ h => h.createReplica
  · refine keeps_ite (fun _ => keeps_pure _) fun _ => keeps_ite (fun _ => ?_) fun _ => keeps_ite (fun _ => ?_) fun _ => ?_
    · exact keeps_setState _ (by decide) (by decide)
    · exact keeps_bind (keeps_setState _ (by decide) (by decide)) fun _ => keeps_setState _ (by decide) (by decide)
    · exact keeps_bind (keeps_require _ _) fun _ => keeps_pure _

lemma keeps_copyToTarget (job : RebalanceJob) (version : Version) :
    KeepsHonest before (Rebalance.copyToTarget job version) := by
  have hsource : KeepsHonest before (Rebalance.verifySource job version) :=
    keeps_bind keeps_query_throughout fun _ => keeps_bind (keeps_require _ _) fun _ =>
      keeps_bind (keeps_verify _ _) fun _ => keeps_require _ _
  exact keeps_bind hsource fun _ => keeps_bind (keeps_targetReplica job) fun _ =>
    keeps_bind (keeps_delete _ _) fun _ => keeps_bind (keeps_copy _ _ _) fun _ =>
    keeps_bind (keeps_verify _ _) fun _ => keeps_bind (keeps_require _ _) fun _ =>
    keeps_bind keeps_now fun _ => keeps_bind (keeps_mark _ _ _ _ _) fun _ => keeps_pure _

lemma keeps_removeSource (cfg : Rebalance.Config) (job : RebalanceJob) (version : Version) :
    KeepsHonest before (Rebalance.removeSource cfg job version) := by
  refine keeps_bind keeps_query_throughout fun _ => keeps_bind (keeps_require _ _) fun _ =>
    keeps_bind (keeps_delete _ _) fun _ => keeps_bind keeps_query_throughout fun db => ?_
  split
  · exact keeps_bind (keeps_transaction_throughout fun _ _ _ _ h => h.removeReplica) fun _ => keeps_pure _
  · exact keeps_pure _

lemma keeps_rebalance_save (i : UUID) (f : RebalanceJob → RebalanceJob) :
    KeepsHonest before (save (fun db => db.amendRebalanceJob i f)) :=
  keeps_saveJobs (fun _ => rfl) (fun _ => rfl) fun _ => le_rfl

/-- The target that is checked again is the row of the job's own version and target node. -/
lemma wp_targetVerified {p : Point Db (List Report) Note} (hp : Throughout (Honest before) p) {job : RebalanceJob}
    {version : Version} {target : Option Replica} (hv : p.session.view.version? job.versionId = some version)
    (ht : ∀ r ∈ target, r ∈ p.session.view.replicas ∧ r.place = (job.versionId, job.targetNodeId)) :
    wp recorded (fun _ => Throughout (Honest before)) (Rebalance.targetVerified job version target) p := by
  cases target with
  | none => exact wp_pure.mpr hp
  | some replica =>
    obtain ⟨hrow, hplace⟩ := ht replica rfl
    obtain ⟨hi, hn⟩ := Prod.mk.inj hplace
    refine wp_ite.mpr ⟨fun _ => ?_, fun _ => wp_pure.mpr hp⟩
    refine wp_bind.mpr (wp_bind.mpr (wp_request.mpr fun answer log hlog => ?_))
    have hp' : Throughout (Honest before) (p.turn log) := hp.turn fun _ h => h.mono (recorded_grows hlog)
    cases answer with
    | error e => exact wp_raise.mpr hp'
    | ok b =>
      by_cases hvalid : b.valid = true
      · simp only [Post.seq_ok, raiseOnInvalid, hvalid, if_true]
        refine wp_pure.mpr (wp_ite.mpr ⟨fun _ => wp_pure.mpr hp', fun hno => ?_⟩)
        refine wp_bind_keeps (wp_condemn hp' replica.replicaId fun r hr he => ?_) fun _ => keeps_pure _
        obtain rfl := Table.eq_of_key hp.view.inv.ids hr hrow he
        refine ⟨version, ?_, b, ?_, hno⟩
        · rw [hi]
          exact (hp.view.version? _).symm.trans hv
        · have hid : version.versionId = r.versionId := (Table.lookup_key hv).trans hi.symm
          have hrecord : (p.turn log).world = p.world ++ [⟨job.targetNodeId, version.versionId, .ok b⟩] := hlog.2
          rw [hrecord, hid, ← hn]
          exact List.mem_append_right _ (List.mem_singleton_self _)
      · simp only [Post.seq_ok, raiseOnInvalid, hvalid]
        exact wp_raise.mpr hp'

lemma keeps_recoverJob (cfg : Rebalance.Config) (job : RebalanceJob) (e : Failure) :
    KeepsHonest before (Rebalance.recoverJob cfg job e) := by
  cases e with
  | client e => exact keeps_bind (keeps_rebalance_save _ _) fun _ => keeps_raise _
  | vault e => exact keeps_bind (keeps_rebalance_save _ _) fun _ => keeps_raise _
  | _ => exact keeps_raise _

lemma wp_startJob {p : Point Db (List Report) Note} (hp : Throughout (Honest before) p) (cfg : Rebalance.Config)
    (job : RebalanceJob) :
    wp recorded (fun _ => Throughout (Honest before)) (Rebalance.startJob cfg job) p := by
  refine wp_bind.mpr (wp_bind.mpr (wp_query.mpr (wp_bind.mpr (wp_demand.mpr ⟨fun version hv => ?_, fun _ => hp.look⟩))))
  refine wp_bind.mpr (wp_require.mpr ⟨fun _ => wp_pure.mpr ?_, fun _ => hp.look⟩)
  refine wp_bind.mpr (wp_bind.mpr (wp_query.mpr (wp_demand.mpr ⟨fun _ _ => ?_, fun _ => hp.look.look⟩)))
  refine wp_bind.mpr (wp_bind.mpr (wp_query.mpr (wp_demand.mpr ⟨fun _ _ => ?_, fun _ => hp.look.look.look⟩)))
  refine wp_bind.mpr (wp_query.mpr (wp_bind.mpr ?_))
  have hstarted := keeps_rebalance_save job.rebalanceId RebalanceJob.start _ hp.look.look.look.look
  refine wp_save.mpr (wp_handle.mpr ?_)
  have hp' := wp_save.mp hstarted
  refine wp_mono (fun r q hq => ?_) (wp_bind_keeps (wp_targetVerified hp' hv fun r hr => ?_) fun verified => ?_)
  · cases r with
    | ok a => exact hq
    | error e => exact keeps_recoverJob cfg job.start e q hq
  · exact ⟨Table.lookup_mem hr, Table.lookup_key hr⟩
  · have hrest : KeepsHonest before (do
        Rebalance.removeSource cfg job.start version
        save (Rebalance.markJob job.start.rebalanceId .succeeded none)
        pure (Rebalance.rebalanceResult (job.start.mark .succeeded none) true)) :=
      keeps_bind (keeps_removeSource _ _ _) fun _ => keeps_bind (keeps_rebalance_save _ _) fun _ => keeps_pure _
    exact keeps_ite (fun _ => hrest) fun _ =>
      keeps_bind (keeps_copyToTarget _ _) fun _ => hrest

lemma keeps_rebalance_runJob (cfg : Rebalance.Config) (i : UUID) : KeepsHonest before (Rebalance.runJob cfg i) := by
  intro p hp
  refine wp_bind.mpr (wp_query.mpr ?_)
  refine wp_bind.mpr (wp_demand.mpr ⟨fun job hjob => ?_, fun _ => hp.look⟩)
  refine wp_ite.mpr ⟨fun _ => wp_pure.mpr hp.look, fun _ => wp_ite.mpr ⟨fun _ => wp_pure.mpr hp.look, fun _ => ?_⟩⟩
  exact wp_startJob hp.look cfg job

end Rebalancing

section Repairing

variable {before : Db}

lemma keeps_repair_save (i : UUID) (f : RepairJob → RepairJob) :
    KeepsHonest before (save (fun db => db.amendRepairJob i f)) :=
  keeps_saveJobs (fun _ => rfl) (fun _ => rfl) fun _ => le_rfl

lemma keeps_rejectJob (job : RepairJob) (error : String) (e : VaultError) :
    KeepsHonest before (Repair.rejectJob job error e) :=
  keeps_bind (keeps_repair_save _ _) fun _ => keeps_raise _

lemma keeps_repair_recoverJob (m : ℕ) (job : RepairJob) (e : Failure) :
    KeepsHonest before (Repair.recoverJob m job e) := by
  cases e with
  | client e => exact keeps_bind (keeps_repair_save _ _) fun _ => keeps_raise _
  | vault e => exact keeps_bind (keeps_repair_save _ _) fun _ => keeps_raise _
  | _ => exact keeps_raise _

lemma keeps_rebuildTarget (job : RepairJob) (version : Version) (i : UUID) :
    KeepsHonest before (Repair.rebuildTarget job version i) :=
  keeps_bind (keeps_verify _ _) fun _ => keeps_bind (keeps_require _ _) fun _ =>
    keeps_bind (keeps_delete _ _) fun _ => keeps_bind (keeps_copy _ _ _) fun _ =>
    keeps_bind (keeps_verify _ _) fun _ => keeps_bind (keeps_require _ _) fun _ =>
    keeps_bind keeps_now fun _ => keeps_bind (keeps_mark _ _ _ _ _) fun _ => keeps_pure _

lemma keeps_repair_startJob (m : ℕ) (job : RepairJob) (version : Version) (replica : Replica) :
    KeepsHonest before (Repair.startJob m job version replica) := by
  refine keeps_bind keeps_query_throughout fun db => ?_
  split
  · exact keeps_rejectJob _ _ _
  · exact keeps_rejectJob _ _ _
  · refine keeps_ite (fun _ => keeps_rejectJob _ _ _) fun _ => keeps_bind (keeps_repair_save _ _) fun _ => ?_
    refine keeps_handle (keeps_bind (keeps_rebuildTarget _ _ _) fun _ => ?_) fun e => keeps_repair_recoverJob _ _ e
    exact keeps_bind (keeps_repair_save _ _) fun _ => keeps_pure _

lemma keeps_repair_runJob (m : ℕ) (i : UUID) : KeepsHonest before (Repair.runJob m i) := by
  refine keeps_bind keeps_query_throughout fun db => keeps_bind (keeps_demand _ _) fun job =>
    keeps_ite (fun _ => keeps_pure _) fun _ => keeps_bind (keeps_demand _ _) fun version =>
    keeps_ite (fun _ => keeps_rejectJob _ _ _) fun _ => keeps_bind ?_ fun replica => keeps_repair_startJob _ _ _ _
  exact keeps_transaction_throughout fun _ _ _ _ h => h.replicaForTarget

end Repairing

section Health

variable {before : Db}

lemma keeps_transitionNodeState (n : String) (state : NodeState) :
    KeepsHonest before (transaction (transitionNodeState (.value n) (.value state))) :=
  keeps_transaction_throughout fun _ _ _ _ h hrun => h.onlyNodes (transitionNodeState_onlyNodes hrun)

lemma keeps_scan (delays : Health.Delays) (rf : ℕ) (now : Time) : KeepsHonest before (Health.scan delays rf now) := by
  have habandon : ∀ replica, KeepsHonest before (Health.abandonReplica rf replica) := by
    intro replica
    refine keeps_bind (keeps_setState _ (by decide) (by decide)) fun _ => keeps_handle
      (keeps_bind (keeps_honest_schedule _ _ _ _) fun _ => keeps_pure _) fun e => ?_
    cases e with
    | vault e => exact keeps_pure _
    | _ => exact keeps_raise _
  have hsuspect : ∀ node, KeepsHonest before (some <$> Health.becomeSuspect node) := fun node =>
    keeps_bind (keeps_bind (keeps_transitionNodeState _ _) fun _ => keeps_pure _) fun _ => keeps_pure _
  have hunavailable : ∀ node, KeepsHonest before (some <$> Health.becomeUnavailable rf node) := fun node =>
    keeps_bind (keeps_bind (keeps_transitionNodeState _ _) fun _ =>
      keeps_bind (keeps_bind keeps_query_throughout fun _ => keeps_bind (keeps_forEach habandon _) fun _ => keeps_pure _)
        fun _ => keeps_pure _) fun _ => keeps_pure _
  refine keeps_bind keeps_query_throughout fun db => keeps_bind (keeps_forEach (fun node => ?_) _) fun _ => keeps_pure _
  unfold Health.evaluate
  split
  · exact keeps_ite (fun _ => hsuspect node) fun _ => keeps_pure _
  · exact keeps_ite (fun _ => hsuspect node) fun _ => keeps_pure _
  · exact keeps_ite (fun _ => hunavailable node) fun _ => keeps_pure _
  · exact keeps_pure _

lemma keeps_ingest (payload : Health.HeartbeatPayload) : KeepsHonest before (Health.ingest payload) := by
  have hadvance : ∀ node, KeepsHonest before (Health.advanceNode node) := by
    intro node
    unfold Health.advanceNode
    split
    · exact keeps_transitionNodeState _ _
    · exact keeps_transitionNodeState _ _
    · exact keeps_transitionNodeState _ _
    · exact keeps_raise _
    · exact keeps_pure _
  refine keeps_bind ?_ fun result => ?_
  · exact keeps_transaction_throughout fun _ _ _ _ h hrun => h.onlyNodes (processNodeHeartbeat_onlyNodes hrun)
  · exact keeps_ite (fun _ => keeps_bind (hadvance _) fun _ => keeps_pure _) fun _ => keeps_pure _

end Health

inductive Operation
  | verifyReplica (replicationFactor : ℕ) (replicaId : UUID)
  | reconcileNode (replicationFactor : ℕ) (nodeId : String)
  | repair (maxAttempts : ℕ) (repairId : UUID)
  | rebalance (cfg : Rebalance.Config) (rebalanceId : UUID)
  | scan (delays : Health.Delays) (replicationFactor : ℕ) (now : Time)
  | ingest (payload : Health.HeartbeatPayload)

def Operation.job : Operation → Job Unit
  | .verifyReplica rf i => do
    let _ ← Integrity.verifyReplica rf i
    pure ()
  | .reconcileNode rf n => do
    let _ ← Recovery.reconcileNode rf n
    pure ()
  | .repair maxAttempts i => do
    let _ ← Repair.runJob maxAttempts i
    pure ()
  | .rebalance cfg i => do
    let _ ← Rebalance.runJob cfg i
    pure ()
  | .scan delays rf now => do
    let _ ← Health.scan delays rf now
    pure ()
  | .ingest payload => do
    let _ ← Health.ingest payload
    pure ()

/-- The operation in a session of its own, with any answers to its requests. Its caller commits what is not
committed at the end, or leaves it to be rolled back. -/
structure Call where
  op : Operation
  serve : ∀ {β : Type}, Request β → List Report → β × List Report
  lawful : ∀ {β : Type} (q : Request β) (log : List Report), recorded q log (serve q log).1 (serve q log).2
  commits : Bool

namespace Call

def ending (db : Db) (call : Call) : Point Db (List Report) Note :=
  (exec call.serve call.op.job (Point.start db [])).2

def after (db : Db) (call : Call) : Db :=
  if call.commits then (call.ending db).session.view else (call.ending db).session.durable

end Call

lemma wp_operation {db : Db} (h : EvidenceInv db) (op : Operation) :
    wp recorded (fun _ => Throughout (Honest db)) op.job (Point.start db []) := by
  have hp : Throughout (Honest db) (Point.start db [] : Point Db (List Report) Note) :=
    ⟨.start h, .start h, by simp [Point.start]⟩
  cases op with
  | verifyReplica rf i => exact (keeps_bind (keeps_verifyReplica rf i) fun _ => keeps_pure _) _ hp
  | reconcileNode rf n => exact wp_bind_keeps (wp_reconcileNode h rf n) fun _ => keeps_pure _
  | repair m i => exact (keeps_bind (keeps_repair_runJob m i) fun _ => keeps_pure _) _ hp
  | rebalance cfg i => exact (keeps_bind (keeps_rebalance_runJob cfg i) fun _ => keeps_pure _) _ hp
  | scan delays rf now => exact (keeps_bind (keeps_scan delays rf now) fun _ => keeps_pure _) _ hp
  | ingest payload => exact (keeps_bind (keeps_ingest payload) fun _ => keeps_pure _) _ hp

lemma Call.honest {db : Db} (h : EvidenceInv db) (call : Call) : Throughout (Honest db) (call.ending db) := by
  have hwp := wp_operation h call.op
  exact wp_sound call.lawful hwp

lemma Call.evidence {db : Db} (h : EvidenceInv db) (call : Call) : EvidenceInv (call.after db) := by
  unfold Call.after
  split_ifs
  · exact (call.honest h).view.inv
  · exact (call.honest h).durable.inv

/-- In every state that a call of a run goes through, and in the one it leaves, a replica that was not
`CORRUPTED` before the call is so only if its node has by then answered a `VERIFY` of the call differently. -/
theorem corrupted_only_on_evidence (db : Db) (hdb : EvidenceInv db) (calls : List Call) (call : Call) :
    (∀ s log, .state s log ∈ (call.ending (Runs.run Call.after db calls)).past →
      ∀ r ∈ s.view.replicas, r.status = .corrupted →
        (∃ old ∈ (Runs.run Call.after db calls).replicas, old.replicaId = r.replicaId ∧ old.status = .corrupted) ∨
          Condemned (Runs.run Call.after db calls) log r) ∧
    ∀ r ∈ (Runs.run Call.after db (calls ++ [call])).replicas, r.status = .corrupted →
      (∃ old ∈ (Runs.run Call.after db calls).replicas, old.replicaId = r.replicaId ∧ old.status = .corrupted) ∨
        Condemned (Runs.run Call.after db calls) (call.ending (Runs.run Call.after db calls)).world r := by
  have hinv : EvidenceInv (Runs.run Call.after db calls) := Runs.run_invariant (fun _ call h => call.evidence h) hdb calls
  have hhonest := call.honest hinv
  refine ⟨fun s log he => (hhonest.past s log he).1.corrupted, ?_⟩
  rw [Runs.run_append]
  unfold Runs.run at hhonest ⊢
  simp only [List.foldl_cons, List.foldl_nil]
  rw [Call.after]
  split_ifs
  · exact hhonest.view.corrupted
  · exact hhonest.durable.corrupted

def wornBlob : Blob := { sampleBlob with valid := false }

def wornResponse : HttpResponse :=
  ⟨200, .json (.dict [("object_id", .str "o"), ("version_id", .str "v"), ("size_bytes", .int 7),
    ("checksum", .str (toString zeroChecksum)), ("verified", .bool true), ("valid", .bool false)])⟩

def serveWorn : ∀ {β : Type}, Request β → List Report → β × List Report
  | _, .verify n i, log => (.ok wornBlob, log ++ [⟨n, i, .ok wornBlob⟩])
  | _, .delete _ _, log => (.ok (), log)
  | _, .stream _ _, log => (.ok (), log)
  | _, .put _ _, log => (.ok (), log)
  | _, .poll _, log => (.error .illTyped, log)
  | _, .now, log => (0, log)
  | _, .enqueue _ _, log => ("", log)

lemma wornBlob_answered : VerifyAnswer (.ok wornBlob) := by
  refine Or.inr ⟨⟨"o", "v"⟩, wornResponse, ?_⟩
  have hread : NodeClient.readReport false ⟨"o", "v"⟩ wornResponse =
      .ok { objectId := "o", versionId := "v", sizeBytes := 7, checksum := zeroChecksum, valid := false } := by
    decide +kernel
  rw [hread]
  rfl

def wornCall : Call where
  op := .verifyReplica 1 ⟨2⟩
  serve := serveWorn
  lawful q log := by
    cases q with
    | verify n i => exact ⟨wornBlob_answered, rfl⟩
    | _ => rfl
  commits := true

/-- The only replica is measured, found invalid and marked. -/
theorem worn_replica_condemned :
    ∃ r ∈ (wornCall.after sampleDb).replicas, r.status = .corrupted ∧
      Condemned sampleDb (wornCall.ending sampleDb).world r := by
  have hmarked : ∃ r ∈ (wornCall.after sampleDb).replicas, r.status = .corrupted := by decide +kernel
  obtain ⟨r, hr, hs⟩ := hmarked
  have hinv : EvidenceInv sampleDb := by
    refine ⟨by decide, by decide, ?_⟩
    simp only [sampleDb, List.mem_singleton, forall_eq]
    exact fun _ => ⟨sampleVersion, rfl, rfl, rfl⟩
  refine ⟨r, hr, hs, ?_⟩
  refine ((corrupted_only_on_evidence sampleDb hinv [] wornCall).2 r hr hs).resolve_left ?_
  rintro ⟨old, hold, -, hc⟩
  have hnone : ∀ r ∈ sampleDb.replicas, r.status ≠ .corrupted := by decide
  exact hnone old hold hc

end Vault.Integrity
