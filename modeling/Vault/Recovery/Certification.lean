import Vault.Health.HeartbeatEffects
import Vault.Recovery.Pass

/-! A node comes back `HEALTHY` only from a pass that visited each of its known replicas and left none of them
unresolved: what it holds `HEALTHY` it has measured, and everything else is under repair. -/

namespace Vault.Recovery

open Vault.Common Vault.Metadata Vault.Storage Vault.Lib Vault.Lib.Script Vault.Lib.Transaction
open Vault.Integrity (Report)
open Vault.Health (Registered transitionNodeState_edge)

section Answers

variable {version : Version} {answer : Except ClientError Blob}

/-- The call came back with neither a measurement nor a word about the object. -/
def Unreachable (answer : Except ClientError Blob) : Prop :=
  ∃ e, answer = .error e ∧ e.kind ≠ .objectNotFound ∧ e.kind ≠ .integrity

lemma finding_of_unreachable (h : Unreachable answer) : finding version answer = .uncontacted := by
  obtain ⟨e, rfl, hm, hi⟩ := h
  unfold finding
  rw [show raiseOnInvalid (.error e : Except ClientError Blob) = .error e from rfl]
  dsimp only
  split
  · next hk => exact absurd hk hm
  · next hk => exact absurd hk hi
  · rfl

lemma measured_of_finding (h : finding version answer = .healthy) : ∃ b, answer = .ok b ∧ b.Matches version := by
  unfold finding at h
  split at h
  · next b hb =>
    split_ifs at h with hm
    refine ⟨b, ?_, hm⟩
    cases answer with
    | error e => cases hb
    | ok b' =>
      simp only [raiseOnInvalid] at hb
      split_ifs at hb
      exact hb
  · split at h <;> cases h

end Answers

section Conclusions

variable {db view : Db} {visits : List Visit} {v : Visit} {r : Replica} {n : String} {acc : RecoveryResult}
  {before log : List Report}

/-- Every call of the pass belongs to one of its visits. -/
lemma Recorded.call (h : Recorded db n [] log visits) {report : Report} (hr : report ∈ log) :
    ∃ v ∈ visits, Borne db n report v := by
  obtain ⟨calls, rfl, hcalls⟩ := h
  induction hcalls with
  | nil => cases hr
  | cons hv _ ih =>
    rcases List.mem_cons.mp hr with rfl | hr
    · exact ⟨_, List.mem_cons_self, hv⟩
    · obtain ⟨v, hm, hb⟩ := ih hr
      exact ⟨v, List.mem_cons_of_mem _ hm, hb⟩

/-- Every visit has its call. -/
lemma Recorded.visited (h : Recorded db n before log visits) (hv : v ∈ visits) : ∃ report ∈ log, Borne db n report v := by
  obtain ⟨calls, rfl, hcalls⟩ := h
  induction hcalls with
  | nil => cases hv
  | cons hb _ ih =>
    rcases List.mem_cons.mp hv with rfl | hv
    · exact ⟨_, by simp, hb⟩
    · obtain ⟨report, hm, hb⟩ := ih hv
      refine ⟨report, ?_, hb⟩
      rcases List.mem_append.mp hm with hm | hm
      · exact List.mem_append_left _ hm
      · exact List.mem_append_right _ (List.mem_cons_of_mem _ hm)

lemma RecoveryResult.close_complete (ht : Tally visits acc) : acc.close.complete = true ↔
    ∀ v ∈ visits, v.finding ≠ .uncontacted ∧ v.refused = false := by
  have hempty : acc.unresolvedReplicaIds.isEmpty = true ↔ ∀ v ∈ visits, v.finding ≠ .uncontacted ∧ v.refused = false := by
    simp [ht.unresolved, List.filter_eq_nil_iff]
  simp only [RecoveryResult.close, Bool.and_eq_true, hempty, ht.complete]
  exact ⟨And.right, fun h => ⟨fun v hv => (h v hv).1, h⟩⟩

/-- A row of the node is the row of a replica that was visited, or of one that is not known. -/
lemma Passed.row (h : Passed db visits view) (hids : (db.replicas.map Replica.replicaId).Nodup)
    (hr : r ∈ view.replicas) :
    (∃ v ∈ visits, Settled v r) ∨ r ∈ db.replicas ∧ ∀ v ∈ visits, v.replica.replicaId ≠ r.replicaId := by
  by_cases hv : ∃ v ∈ visits, v.replica.replicaId = r.replicaId
  · obtain ⟨v, hv, hid⟩ := hv
    obtain ⟨s, hs, hset⟩ := h.settled v hv
    obtain rfl := Table.eq_of_key (h.distinct hids) hs hr (hset.1.trans hid)
    exact Or.inl ⟨v, hv, hset⟩
  · push Not at hv
    have hid : r.replicaId ∈ db.replicas.map Replica.replicaId := h.ids ▸ List.mem_map_of_mem hr
    obtain ⟨s, hs, he⟩ := List.mem_map.mp hid
    have hsr := h.untouched s hs fun v hv' => he ▸ hv v hv'
    obtain rfl := Table.eq_of_key (h.distinct hids) hsr hr he
    exact Or.inr ⟨hs, hv⟩

end Conclusions

section Endings

variable {ρ : Type} {A : ∀ β : Type, Request β → β → Prop} {rf : ℕ} {db : Db} {n : String}
  {p : Point Db (ρ × List Report) Note}

/-- What the whole reconciliation of a `RECOVERING` node comes to. -/
theorem wp_reconcileAndMarkHealthy (hrf : 1 ≤ rf) (h : Registered db) {node : StorageNode} (hn : db.node? n = some node)
    (hs : node.status = .recovering) (hview : p.session.view = db) :
    wp (logged A) (Post.seq (fun result q => ∃ visits acc passed, Surveyed db n p.world.2 q.world.2 visits passed ∧
      Tally visits acc ∧ result = acc.close ∧ .note (.reconciled n result.complete) ∈ q.past ∧
      q.session.view = if result.complete = true then passed.amendNode n (StorageNode.enter .healthy) else passed)
      fun _ q => Cut db n p.world.2 q.world.2 [] (knownReplicas db n) q.session.view)
      (reconcileAndMarkHealthy rf n) p := by
  refine wp_bind.mpr (wp_mono ?_ (wp_reconcileNode hrf h.replicaIds hn hs hview))
  intro x q hx
  cases x with
  | error e => exact hx
  | ok result =>
    obtain ⟨visits, acc, hsurveyed, htally, rfl, hnote⟩ := hx
    have hpassed := hsurveyed.passed
    rw [Post.seq_ok]
    split_ifs with hcomplete
    · have hnode : q.session.view.node? n = some node := (hpassed.node? n).trans hn
      have hid : node.nodeId = n := Table.lookup_key hn
      have hreg : Registered q.session.view := h.of_same (by rw [hpassed.nodes]) hpassed.ids
      refine wp_bind.mpr (wp_query.mpr (wp_bind.mpr (wp_demand.mpr ⟨fun node' hn' => ?_, fun hnone => ?_⟩)))
      swap
      · cases hnode.symm.trans hnone
      cases hnode.symm.trans hn'
      rw [Post.seq_ok, if_pos hs]
      have hedge : (transitionNodeState (.value node.nodeId) (.value .healthy)).run _ = _ :=
        transitionNodeState_edge hreg (Table.lookup_mem hnode) (by rw [hs]; decide) (by rw [hs]; decide)
      rw [hid] at hedge
      refine wp_bind.mpr (wp_transaction_ok hedge fun s hview' => ?_)
      refine wp_pure.mpr ⟨visits, acc, q.session.view, hsurveyed, htally, rfl, ?_, ?_⟩
      · exact List.mem_append_left _ hnote
      · rw [if_pos hcomplete]
        exact hview'
    · refine wp_bind.mpr (wp_pure.mpr (wp_pure.mpr ⟨visits, acc, q.session.view, hsurveyed, htally, rfl, hnote, ?_⟩))
      rw [if_neg hcomplete]

/-- Any other node is refused before anything is asked. -/
lemma wp_reconcile_refused (hs : ∀ node ∈ db.node? n, node.status ≠ .recovering) (hview : p.session.view = db) :
    wp (logged A) (Post.seq (fun _ _ => False) fun _ q => q.session.view = db ∧ q.world.2 = p.world.2)
      (reconcileAndMarkHealthy rf n) p := by
  refine wp_bind.mpr (wp_bind.mpr (wp_query.mpr (wp_bind.mpr (wp_demand.mpr ⟨fun node hn => ?_, fun _ => ⟨hview, rfl⟩⟩))))
  rw [hview] at hn
  exact wp_bind.mpr (wp_require.mpr ⟨fun hr => absurd hr (hs node hn), fun _ => ⟨hview, rfl⟩⟩)

end Endings

/-- What the run says of a node that comes back `HEALTHY`. -/
structure Attested (view : Db) (n : String) (log : List Report) (result : RecoveryResult) : Prop where
  measured : ∀ r ∈ Integrity.committedOn view n, r.status = .healthy →
    ∃ version ∈ view.version? r.versionId, ∃ b, ⟨n, r.versionId, .ok b⟩ ∈ log ∧ b.Matches version
  listed : ∀ r ∈ Integrity.committedOn view n, r.status ≠ .healthy → r.status ≠ .failed →
    (r.replicaId ∈ result.missingReplicaIds ∨ r.replicaId ∈ result.corruptedReplicaIds) ∧
      ∃ job ∈ view.repairJobs, job.versionId = r.versionId ∧ Repair.Active job.status
  counted : result.checkedReplicas =
    result.healthyReplicas + result.missingReplicaIds.length + result.corruptedReplicaIds.length

section Survey

variable {db view : Db} {n : String} {before log : List Report} {visits : List Visit} {acc : RecoveryResult}
  {r : Replica}

/-- After a complete survey each row of a known replica is that of a visit that settled it. -/
lemma Surveyed.visit (h : Surveyed db n before log visits view) (hids : (db.replicas.map Replica.replicaId).Nodup)
    (hr : r ∈ Integrity.committedOn view n) (hlive : r.status ≠ .failed) : ∃ v ∈ visits, Settled v r := by
  simp only [Integrity.committedOn, List.mem_filter, decide_eq_true_eq] at hr
  obtain ⟨hrow, hplace, hcommitted⟩ := hr
  refine (h.passed.row hids hrow).resolve_right fun hkept => ?_
  obtain ⟨hold, hfree⟩ := hkept
  simp only [h.passed.version?] at hcommitted
  have hmem : r ∈ visits.map Visit.replica := h.known ▸ mem_knownReplicas.mpr ⟨hold, hplace, hcommitted, hlive⟩
  obtain ⟨v, hv, rfl⟩ := List.mem_map.mp hmem
  exact hfree v hv rfl

lemma Surveyed.mem (h : Surveyed db n before log visits view) {v : Visit} (hv : v ∈ visits) :
    v.replica ∈ knownReplicas db n := h.known ▸ List.mem_map_of_mem hv

lemma Settled.versionId {v : Visit} (h : Settled v r) : r.versionId = v.replica.versionId := congrArg Prod.fst h.2.1

/-- Whether the row is `HEALTHY` afterwards says what the visit found. -/
lemma Settled.healthy_iff {v : Visit} (h : Settled v r) (hc : v.finding ≠ .uncontacted) :
    r.status = .healthy ↔ v.finding = .healthy := by
  obtain ⟨-, -, h⟩ := h
  cases hf : v.finding with
  | healthy =>
    rw [hf] at h
    exact ⟨fun _ => rfl, fun _ => h⟩
  | missing =>
    rw [hf] at h
    subst h
    split_ifs with hs <;> simp [Replica.enter, hs]
  | corrupted =>
    rw [hf] at h
    subst h
    split_ifs with hs <;> simp [Replica.enter, hs]
  | uncontacted => exact absurd hf hc

lemma Surveyed.attested (h : Surveyed db n before log visits view) (hids : (db.replicas.map Replica.replicaId).Nodup)
    (ht : Tally visits acc) (hcomplete : acc.close.complete = true) : Attested view n log acc.close := by
  have hclean := (RecoveryResult.close_complete ht).mp hcomplete
  refine ⟨fun r hr hs => ?_, fun r hr hs hlive => ?_, ht.checked⟩
  · obtain ⟨v, hv, hset⟩ := h.visit hids hr (by rw [hs]; decide)
    have hfound := (hset.healthy_iff (hclean v hv).1).mp hs
    obtain ⟨-, -, ⟨version, hversion, -⟩, -⟩ := mem_knownReplicas.mp (h.mem hv)
    obtain ⟨report, hreport, rfl, hid, hanswer⟩ := h.recorded.visited hv
    obtain ⟨b, hb, hm⟩ := measured_of_finding ((hanswer version hversion).trans hfound)
    refine ⟨version, ?_, b, ?_, hm⟩
    · rw [h.passed.version?, hset.versionId]
      exact hversion
    · rw [hset.versionId, ← hid, ← hb]
      exact hreport
  · obtain ⟨v, hv, hset⟩ := h.visit hids hr hlive
    obtain ⟨hcontacted, haccepted⟩ := hclean v hv
    have hfound : v.Damaged := by
      have hno := mt (hset.healthy_iff hcontacted).mpr hs
      unfold Visit.Damaged
      cases hf : v.finding <;> simp_all
    refine ⟨?_, ?_⟩
    · simp only [RecoveryResult.close, ht.missing, ht.corrupted, hset.1, List.mem_map, List.mem_filter,
        decide_eq_true_eq]
      exact hfound.imp (fun hf => ⟨v, ⟨hv, hf⟩, rfl⟩) fun hf => ⟨v, ⟨hv, hf⟩, rfl⟩
    · obtain ⟨job, hjob, hrest⟩ := h.passed.scheduled v hv hfound haccepted
      exact ⟨job, hjob, hset.versionId ▸ hrest⟩

lemma Attested.amendNode {result : RecoveryResult} (h : Attested view n log result) (m : String)
    (f : StorageNode → StorageNode) : Attested (view.amendNode m f) n log result :=
  ⟨h.measured, h.listed, h.counted⟩

lemma Passed.kept (h : Passed db visits view) {v : Visit} (hv : v ∈ visits) (hf : v.finding = .uncontacted) :
    v.replica ∈ view.replicas := by
  obtain ⟨r, hr, -, -, hset⟩ := h.settled v hv
  rw [hf] at hset
  obtain rfl : r = v.replica := hset
  exact hr

/-- The replica that an unanswered call was about was visited, and its row is as it was. -/
lemma Passed.unreachable (hp : Passed db visits view) {all : List Visit} (hrec : Recorded db n [] log all)
    (hall : ∀ v ∈ all, v.finding = .uncontacted → v ∈ visits) (hknown : ∀ v ∈ all, v.replica ∈ knownReplicas db n)
    (hplaces : (db.replicas.map Replica.place).Nodup) (hr : r ∈ db.replicas) (hn : r.nodeId = n)
    {answer : Except ClientError Blob} (hcall : ⟨n, r.versionId, answer⟩ ∈ log) (hanswer : Unreachable answer) :
    r ∈ view.replicas ∧ ∃ v ∈ visits, v.finding = .uncontacted := by
  obtain ⟨v, hv, -, hid, hfound⟩ := hrec.call hcall
  obtain ⟨hrow, hplace, ⟨version, hversion, -⟩, -⟩ := mem_knownReplicas.mp (hknown v hv)
  have hun : v.finding = .uncontacted := (hfound version hversion).symm.trans (finding_of_unreachable hanswer)
  have hmem := hall v hv hun
  have hsame : v.replica = r := Table.eq_of_key hplaces hrow hr (Prod.ext hid.symm (hplace.trans hn.symm))
  exact ⟨hsame ▸ hp.kept hmem hun, v, hmem, hun⟩

end Survey

/-- A node that a reconciliation marks `HEALTHY` is attested. While one of its replicas could not be reached it
stays `RECOVERING`, and the row of that replica is as it was. -/
theorem reconciliation_certifies {ρ : Type} (serve : ∀ {β : Type}, Request β → ρ → β × ρ) (w : ρ) (rf : ℕ)
    (hrf : 1 ≤ rf) (db : Db) (h : Registered db) (hplaces : (db.replicas.map Replica.place).Nodup) (n : String) :
    let run := exec (logging serve) (reconcileAndMarkHealthy rf n) (Point.start db (w, []))
    let view := run.2.session.view
    let log := run.2.world.2
    (∀ result, run.1 = .ok result → (∃ node ∈ view.node? n, node.status = .healthy) → Attested view n log result) ∧
      ∀ r ∈ db.replicas, r.nodeId = n → ∀ answer, ⟨n, r.versionId, answer⟩ ∈ log → Unreachable answer →
        r ∈ view.replicas ∧ ∃ node ∈ view.node? n, node.status = .recovering := by
  intro run view log
  have hlogged : ∀ {β : Type} (q : Request β) (w : ρ × List Report),
      logged (fun _ _ _ => True) q w (logging serve q w).1 (logging serve q w).2 :=
    fun q w => logged_logging (fun _ _ => trivial) q w
  by_cases hs : ∃ node ∈ db.node? n, node.status = .recovering
  swap
  · -- The run is refused, and asks nothing.
    push Not at hs
    have hrefused : wp (logged fun _ _ _ => True) _ (reconcileAndMarkHealthy rf n) (Point.start db (w, [])) :=
      wp_reconcile_refused hs rfl
    have hrun := wp_sound hlogged hrefused
    change Post.seq _ _ run.1 run.2 at hrun
    rcases run with ⟨_ | result, q⟩
    · obtain ⟨-, hlog⟩ := hrun
      refine ⟨(fun _ hr => by cases hr), fun r _ _ answer hcall _ => ?_⟩
      change _ ∈ q.world.2 at hcall
      rw [hlog] at hcall
      cases hcall
    · exact hrun.elim
  obtain ⟨node, hn, hs⟩ := hs
  have hrun := wp_sound hlogged (wp_reconcileAndMarkHealthy (p := Point.start db (w, [])) hrf h hn hs rfl)
  change Post.seq _ _ run.1 run.2 at hrun
  rcases run with ⟨e | result, q⟩
  · obtain ⟨visits, r', rest, hsplit, -, hpassed, hrecorded⟩ := hrun
    refine ⟨(fun _ hr => by cases hr), fun r hr hplace answer hcall hanswer => ?_⟩
    have hearlier : ∀ v ∈ visits ++ [⟨r', .healthy, false⟩], v.finding = .uncontacted → v ∈ visits := by
      intro v hv hf
      refine (List.mem_append.mp hv).resolve_right fun hlast => ?_
      rw [List.mem_singleton.mp hlast] at hf
      cases hf
    have hknown : ∀ v ∈ visits ++ [⟨r', .healthy, false⟩], v.replica ∈ knownReplicas db n := by
      intro v hv
      rw [← List.nil_append (knownReplicas db n), hsplit]
      rcases List.mem_append.mp hv with hv | hv
      · exact List.mem_append_left _ (List.mem_map_of_mem hv)
      · rw [List.mem_singleton.mp hv]
        simp
    obtain ⟨hkept, -⟩ := hpassed.unreachable hrecorded hearlier hknown hplaces hr hplace hcall hanswer
    exact ⟨hkept, node, (hpassed.node? n).trans hn, hs⟩
  · obtain ⟨visits, acc, passed, hsurveyed, htally, rfl, -, hview⟩ := hrun
    have hpassed := hsurveyed.passed
    change view = _ at hview
    refine ⟨fun result hr hhealthy => ?_, fun r hr hplace answer hcall hanswer => ?_⟩
    · cases hr
      by_cases hcomplete : acc.close.complete = true
      · rw [hview, if_pos hcomplete]
        exact (hsurveyed.attested h.replicaIds htally hcomplete).amendNode _ _
      · rw [hview, if_neg hcomplete, hpassed.node?] at hhealthy
        obtain ⟨node', hn', hs'⟩ := hhealthy
        cases hn.symm.trans hn'
        rw [hs] at hs'
        cases hs'
    · obtain ⟨hkept, v, hv, hf⟩ := hpassed.unreachable hsurveyed.recorded (fun _ hv _ => hv) (fun _ hv => hsurveyed.mem hv)
        hplaces hr hplace hcall hanswer
      have hcomplete : ¬acc.close.complete = true := fun hc => ((RecoveryResult.close_complete htally).mp hc v hv).1 hf
      rw [hview, if_neg hcomplete]
      exact ⟨hkept, node, (hpassed.node? n).trans hn, hs⟩

/-- Node `b` comes back from a partition with a `PENDING` row and the bytes for it. -/
def returningDb : Db :=
  { sampleDb with
    nodes :=
      [{ nodeId := "a", address := "http://a", status := .healthy, capacityBytes := 100 },
        { nodeId := "b", address := "http://b", status := .recovering, capacityBytes := 100 }]
    replicas := sampleDb.replicas ++ [{ replicaId := ⟨4⟩, versionId := ⟨1⟩, nodeId := "b", status := .pending }]
    nextId := 5 }

theorem returning_node_certified :
    let run := exec (logging Storage.serve) (reconcileAndMarkHealthy 2 "b")
      (Point.start returningDb (⟨fun _ _ => some sampleBlob, fun _ => {}⟩, []))
    run.1 = .ok { nodeId := "b", checkedReplicas := 1, healthyReplicas := 1 } ∧
      (run.2.session.view.replicas.map Replica.status = [.healthy, .healthy]) ∧
      Attested run.2.session.view "b" run.2.world.2 { nodeId := "b", checkedReplicas := 1, healthyReplicas := 1 } := by
  intro run
  have hrun : run.1 = .ok { nodeId := "b", checkedReplicas := 1, healthyReplicas := 1 } := by decide +kernel
  have hreg : Registered returningDb := ⟨⟨by decide +kernel, by decide +kernel⟩, by decide +kernel, by decide +kernel⟩
  have hall := reconciliation_certifies Storage.serve ⟨fun _ _ => some sampleBlob, fun _ => {}⟩ 2 (by decide) returningDb
    hreg (by decide +kernel) "b"
  exact ⟨hrun, by decide +kernel, hall.1 _ hrun (by decide +kernel)⟩

end Vault.Recovery
