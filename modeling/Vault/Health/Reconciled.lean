import Vault.Health.Guarded

/-! Every heartbeat and every scan keeps the invariant, as long as no scan finds a `RECOVERING` node
that has been silent for too long. -/

namespace Vault.Health

open Vault.Common Vault.Metadata Vault.Storage Vault.Lib Vault.Lib.Script Vault.Lib.Transaction
open Vault.Recovery

variable {ρ : Type} {ns : List StorageNode}

lemma keeps_markVerifiedReplica (replica : Replica) (measured : Blob) :
    KeepsSteady ρ ns (markVerifiedReplica replica measured) := by
  refine keeps_ite (fun _ => ?_) fun _ => keeps_ite (fun _ => keeps_pure ()) fun _ => ?_
  · exact keeps_bind (keeps_request_steady _) fun now =>
      keeps_bind (keeps_recordVerified now _ _ _) fun _ => keeps_pure _
  · have hmark : KeepsSteady ρ ns (do
        let now ← Job.now
        let _ ← transaction
          (markVerified Replica.status now replica.replicaId measured.checksum measured.sizeBytes)) :=
      keeps_bind (keeps_request_steady _) fun now =>
        keeps_bind (keeps_markVerified now _ _ _) fun _ => keeps_pure _
    refine keeps_ite (fun _ => ?_) fun _ => ?_
    · exact keeps_bind (keeps_setReplicaState _ _) fun _ => hmark
    · exact keeps_bind (keeps_require _ _) fun _ => hmark

lemma keeps_scheduleRepair (rf : ℕ) (i : UUID) (replica : Replica) (reason : String) :
    KeepsSteady ρ ns (Recovery.scheduleRepair rf i replica reason) := by
  refine keeps_handle (keeps_bind (keeps_schedule _ _ _ _) fun _ => keeps_pure _) fun e => ?_
  cases e with
  | vault e => exact keeps_pure _
  | client e => exact keeps_raise _
  | value m => exact keeps_raise _
  | illTyped => exact keeps_raise _
  | other m => exact keeps_raise _

lemma keeps_repairDamaged (rf : ℕ) (version : Version) (replica : Replica) (state : ReplicaState)
    (reason : String) (acc : RecoveryResult) :
    KeepsSteady ρ ns (repairDamaged rf version replica state reason acc) := by
  refine keeps_ite (fun _ => ?_) fun _ => ?_
  · exact keeps_bind (keeps_setReplicaState _ _) fun _ => keeps_bind (keeps_scheduleRepair _ _ _ _) fun _ => keeps_pure _
  · exact keeps_bind (keeps_scheduleRepair _ _ _ _) fun _ => keeps_pure _

lemma keeps_reconcileReplica (rf : ℕ) (node : StorageNode) (replica : Replica) (acc : RecoveryResult) :
    KeepsSteady ρ ns (reconcileReplica rf node replica acc) := by
  refine keeps_bind keeps_query_steady fun db => keeps_bind (keeps_demand _ _) fun version =>
    keeps_bind (keeps_request_steady _) fun answer => ?_
  split
  · next measured _ =>
    exact keeps_ite (fun _ => keeps_bind (keeps_markVerifiedReplica _ _) fun _ => keeps_pure _)
      fun _ => keeps_repairDamaged _ _ _ _ _ _
  · next e _ =>
    split
    · exact keeps_repairDamaged _ _ _ _ _ _
    · exact keeps_bind (keeps_repairDamaged _ _ _ _ _ _) fun _ => keeps_pure _
    · exact keeps_pure _

lemma keeps_reconcileReplicas (rf : ℕ) (node : StorageNode) (replicas : List Replica)
    (acc : RecoveryResult) : KeepsSteady ρ ns (reconcileReplicas rf node replicas acc) := by
  induction replicas generalizing acc with
  | nil => exact keeps_pure acc
  | cons replica rest ih => exact keeps_bind (keeps_reconcileReplica rf node replica acc) fun acc => ih acc

lemma keeps_abandonReplica (rf : ℕ) (replica : Replica) :
    KeepsSteady ρ ns (abandonReplica rf replica) := by
  refine keeps_bind (keeps_setReplicaState _ _) fun _ => keeps_handle
    (keeps_bind (keeps_schedule _ _ _ _) fun _ => keeps_pure _) fun e => ?_
  cases e with
  | vault e => exact keeps_pure _
  | client e => exact keeps_raise _
  | value m => exact keeps_raise _
  | illTyped => exact keeps_raise _
  | other m => exact keeps_raise _

lemma keeps_scheduleRepairsForNode (rf : ℕ) (nodeId : String) :
    KeepsSteady ρ ns (scheduleRepairsForNode rf nodeId) :=
  keeps_bind keeps_query_steady fun _ =>
    keeps_bind (keeps_forEach (keeps_abandonReplica rf) _) fun _ => keeps_pure _

lemma keeps_of_steady {α : Type} {x : Job α} (h : ∀ ns, KeepsSteady ρ ns x) :
    Keeps (any (ρ := ρ)) Guarded x :=
  fun p hp => wp_mono (fun _ _ hq => hq.1) (h p.session.view.nodes p ⟨hp, rfl⟩)

section Transition

variable {p : Watch ρ} {n : String} {node : StorageNode} {state : NodeState}

lemma transitionNodeState_along {db db' : Db} {w : StorageNode} (hk : db.NodeKeys)
    (hn : db.node? n = some node)
    (h : (transitionNodeState (.value n) (.value state)).run db = .ok (w, db')) :
    state = node.status ∧ w = node ∧ db' = db ∨
      w = node.enter state ∧ db' = db.amendNode n (StorageNode.enter state) := by
  obtain ⟨node', state', hv, hs, hn', h⟩ := transitionNodeState_ok h
  cases hs
  rw [validateNodeId_node hk.stripped hn hv] at hn' h
  cases hn.symm.trans hn'
  rcases h with h | ⟨-, h⟩
  · exact Or.inl h
  · exact Or.inr h

lemma node?_amendNode_self {db : Db} {f : StorageNode → StorageNode} (hf : ∀ m, (f m).nodeId = m.nodeId)
    (hn : db.node? n = some node) : (db.amendNode n f).node? n = some (f node) :=
  Table.lookup_amend_self hf hn

lemma node?_amendNode_ne {db : Db} {f : StorageNode → StorageNode} (hf : ∀ m, (f m).nodeId = m.nodeId)
    {m : String} (hm : m ≠ n) : (db.amendNode n f).node? m = db.node? m :=
  Table.lookup_amend_ne hf _ hm

lemma Guarded.transition (h : Guarded p) (hn : p.session.view.node? n = some node)
    (hok : Awaiting n p.past → state = .unavailable ∨ state = .recovering) :
    Guarded (p.move (p.session.begin (transitionNodeState (.value n) (.value state))).2) := by
  refine h.begin fun w t ht => ?_
  rcases transitionNodeState_along h.keys hn ht with ⟨-, -, rfl⟩ | ⟨-, rfl⟩
  · exact ⟨h.keys, h.held⟩
  · refine ⟨h.keys.amend n fun _ => rfl, fun m hm => ?_⟩
    unfold Held statusOf
    by_cases he : m = n
    · subst he
      rw [node?_amendNode_self (f := StorageNode.enter state) (fun _ => rfl) hn]
      rcases hok hm with rfl | rfl
      · exact Or.inl rfl
      · exact Or.inr rfl
    · rw [node?_amendNode_ne (f := StorageNode.enter state) (fun _ => rfl) he]
      exact h.held m hm

lemma transition_node? (h : Guarded p) (hn : p.session.view.node? n = some node) {m : String}
    (hm : m ≠ n) :
    (p.session.begin (transitionNodeState (.value n) (.value state))).2.view.node? m =
      p.session.view.node? m := by
  rw [Session.begin_view]
  rcases atomic_cases (transitionNodeState (.value n) (.value state)) p.session.view with
    ⟨w, t, ht, ha⟩ | ⟨e, -, ha⟩
  · rw [ha]
    rcases transitionNodeState_along h.keys hn ht with ⟨-, -, rfl⟩ | ⟨-, rfl⟩
    · rfl
    · exact node?_amendNode_ne (f := StorageNode.enter state) (fun _ => rfl) hm
  · rw [ha]

end Transition

lemma keeps_query_guarded : Keeps (any (ρ := ρ)) Guarded (query : Job Db) :=
  keeps_query fun _ => Guarded.look

lemma reconcileNode_post (rf : ℕ) (nodeId : String) {p : Watch ρ} (hp : Guarded p) :
    wp any (fun r q => Guarded q ∧ ∀ result, r = .ok result → result.complete = true →
      ¬Awaiting nodeId q.past) (reconcileNode rf nodeId) p := by
  have hraise : ∀ {q : Watch ρ} (e : Failure), Guarded q → Guarded q ∧ ∀ result : RecoveryResult,
      Except.error e = Except.ok result → result.complete = true → ¬Awaiting nodeId q.past :=
    fun e hq => ⟨hq, fun _ he => by cases he⟩
  simp only [reconcileNode, wp_bind, wp_query, Post.seq_ok, wp_demand, Post.seq_error, wp_require]
  refine ⟨fun node _ => ⟨fun _ => ?_, fun _ => hraise _ hp.look⟩, fun _ => hraise _ hp.look⟩
  refine wp_mono ?_ (keeps_of_steady (fun ns => keeps_reconcileReplicas rf node _ _) p.look hp.look)
  intro r q hq
  cases r with
  | error e => exact hraise e hq
  | ok result =>
    refine wp_bind.mpr (wp_remark.mpr (wp_pure.mpr ⟨hq.remark _, ?_⟩))
    rintro _ he hc hw
    cases he
    rw [Point.remark, awaiting_concat] at hw
    exact hw.2 ⟨rfl, hc⟩

lemma keeps_reconcileAndMarkHealthy (rf : ℕ) (nodeId : String) :
    Keeps (any (ρ := ρ)) Guarded (reconcileAndMarkHealthy rf nodeId) := by
  intro p hp
  refine wp_bind.mpr (wp_mono ?_ (reconcileNode_post rf nodeId hp))
  rintro r q ⟨hq, hdone⟩
  cases r with
  | error e => exact hq
  | ok result =>
    refine wp_ite.mpr ⟨fun hc => ?_, fun _ => wp_pure.mpr hq⟩
    refine wp_bind.mpr (wp_query.mpr ?_)
    refine wp_bind.mpr (wp_demand.mpr ⟨fun node hn => ?_, fun _ => hq.look⟩)
    refine wp_ite.mpr ⟨fun _ => ?_, fun _ => wp_pure.mpr hq.look⟩
    refine wp_bind_keeps (wp_transaction.mpr (hq.look.transition hn ?_)) fun _ => keeps_pure _
    exact fun hw => absurd hw (hdone result rfl hc)

section Ingest

variable {payload : HeartbeatPayload} {db db' : Db}

def HeartbeatPayload.beat (payload : HeartbeatPayload) : StorageNode → StorageNode :=
  StorageNode.beat payload.capacityBytes payload.usedBytes payload.timestamp

lemma processPayload_ok {r : StorageNode × Bool} (h : (processPayload payload).run db = .ok (r, db')) :
    ∃ node, db.node? payload.nodeId = some node ∧
      (r = (node, false) ∧ db' = db ∨
        r = (payload.beat node, true) ∧ db' = db.amendNode payload.nodeId payload.beat) := by
  have hid : validateNodeId (.value payload.nodeId) = .ok payload.nodeId := by
    simp [validateNodeId, validateNonEmpty, payload.nodeId_stripped, payload.nodeId_ne]
  simp [processPayload, processNodeHeartbeat, hid, validateTyped] at h
  obtain ⟨capacity, hcap, used, hused, node, hn, -, h⟩ := h
  cases hcap
  cases hused
  refine ⟨node, hn, ?_⟩
  rcases h with ⟨-, h⟩ | ⟨-, -, h⟩
  · exact Or.inl h
  · exact Or.inr h

lemma Guarded.heartbeat {p : Watch ρ} (h : Guarded p) :
    Guarded (p.move (p.session.begin (processPayload payload)).2) := by
  refine h.begin fun r t ht => ?_
  obtain ⟨node, hn, ⟨-, rfl⟩ | ⟨-, rfl⟩⟩ := processPayload_ok ht
  · exact ⟨h.keys, h.held⟩
  · refine ⟨h.keys.amend _ fun _ => rfl, fun m hm => ?_⟩
    have hheld := h.held m hm
    unfold Held statusOf at *
    by_cases he : m = payload.nodeId
    · subst he
      rw [hn] at hheld
      rw [node?_amendNode_self (f := payload.beat) (fun _ => rfl) hn]
      exact hheld
    · rw [node?_amendNode_ne (f := payload.beat) (fun _ => rfl) he]
      exact hheld

lemma wp_advanceNode {p : Watch ρ} (h : Guarded p) {node : StorageNode}
    (hn : p.session.view.node? node.nodeId = some node) :
    wp any (fun _ => Guarded) (advanceNode node) p := by
  have hheld : Awaiting node.nodeId p.past → node.status = .unavailable ∨ node.status = .recovering := by
    intro hw
    simpa [Held, statusOf, hn] using h.held _ hw
  unfold advanceNode
  split
  · next hs =>
    refine wp_transaction.mpr (h.transition hn fun hw => ?_)
    simpa [hs] using hheld hw
  · next hs =>
    refine wp_transaction.mpr (h.transition hn fun hw => ?_)
    simpa [hs] using hheld hw
  · exact wp_transaction.mpr (h.transition hn fun _ => Or.inr rfl)
  · exact wp_raise.mpr h
  · exact wp_pure.mpr h

lemma keeps_ingest (payload : HeartbeatPayload) : Keeps (any (ρ := ρ)) Guarded (ingest payload) := by
  intro p hp
  have hbeat : Guarded (p.move (p.session.begin (processPayload payload)).2) := hp.heartbeat
  refine wp_bind.mpr (wp_transaction.mpr ?_)
  rcases atomic_cases (processPayload payload) p.session.view with ⟨r, t, ht, ha⟩ | ⟨e, -, ha⟩
  · have hview : (p.session.begin (processPayload payload)).2.view = t := by
      rw [Session.begin_view, ha]
    rw [Session.begin_result, ha]
    obtain ⟨node, hn, ⟨rfl, -⟩ | ⟨rfl, rfl⟩⟩ := processPayload_ok ht
    · exact wp_pure.mpr hbeat
    · refine wp_bind_keeps (wp_advanceNode hbeat ?_) fun _ => keeps_pure _
      have hid : node.nodeId = payload.nodeId := Table.lookup_key hn
      rw [show (payload.beat node).nodeId = payload.nodeId from hid]
      exact (congrArg (fun db => Db.node? db payload.nodeId) hview).trans
        (node?_amendNode_self (f := payload.beat) (fun _ => rfl) hn)
  · rw [Session.begin_result, ha]
    exact hbeat

lemma keeps_ingestAndRecover (rf : ℕ) (payload : HeartbeatPayload) :
    Keeps (any (ρ := ρ)) Guarded (ingestAndRecover rf payload) := by
  refine keeps_bind (keeps_ingest payload) fun result => keeps_ite (fun _ => keeps_pure _) fun _ => ?_
  refine keeps_bind (keeps_reconcileAndMarkHealthy rf _) fun _ => ?_
  exact keeps_bind keeps_query_guarded fun db => keeps_bind (keeps_demand _ _) fun node => keeps_pure _

end Ingest

section Scan

def Heard (delays : Delays) (now : Time) (node : StorageNode) : Prop :=
  node.status = .recovering → ∀ last ∈ node.lastHeartbeatAt, now - last < delays.suspectAfter

variable {delays : Delays} {now : Time} {node : StorageNode} {p : Watch ρ}

/-- After the evaluation of a node the rows of the other nodes are as they were. -/
def Evaluated (db : Db) (nodeId : String) (p : Watch ρ) : Prop :=
  Guarded p ∧ ∀ m, m ≠ nodeId → p.session.view.node? m = db.node? m

lemma Evaluated.refl (h : Guarded p) (nodeId : String) : Evaluated p.session.view nodeId p :=
  ⟨h, fun _ _ => rfl⟩

lemma wp_becomeSuspect (h : Guarded p) (hn : p.session.view.node? node.nodeId = some node)
    (hs : node.status = .healthy) :
    wp any (fun _ => Evaluated p.session.view node.nodeId) (some <$> becomeSuspect node) p := by
  have hnext : Evaluated p.session.view node.nodeId
      (p.move (p.session.begin (transitionNodeState (.value node.nodeId) (.value .suspect))).2) := by
    refine ⟨h.transition hn fun hw => ?_, fun m hm => transition_node? h hn hm⟩
    simpa [Held, statusOf, hn, hs] using h.held _ hw
  exact wp_bind_keeps (wp_bind_keeps (wp_transaction.mpr hnext) fun _ => keeps_pure _)
    fun _ => keeps_pure _

lemma wp_becomeUnavailable (rf : ℕ) (h : Guarded p)
    (hn : p.session.view.node? node.nodeId = some node) :
    wp any (fun _ => Evaluated p.session.view node.nodeId) (some <$> becomeUnavailable rf node) p := by
  have hnext : Guarded (p.move
      (p.session.begin (transitionNodeState (.value node.nodeId) (.value .unavailable))).2) :=
    h.transition hn fun _ => Or.inl rfl
  have hsame : ∀ m, m ≠ node.nodeId →
      (p.session.begin (transitionNodeState (.value node.nodeId) (.value .unavailable))).2.view.node? m =
        p.session.view.node? m := fun m hm => transition_node? h hn hm
  refine wp_bind_keeps (wp_bind.mpr (wp_transaction.mpr ?_)) fun _ => keeps_pure _
  generalize p.session.begin (transitionNodeState (.value node.nodeId) (.value .unavailable)) = b at *
  obtain ⟨r, s⟩ := b
  cases r with
  | error e => exact ⟨hnext, hsame⟩
  | ok updated =>
    refine wp_bind_keeps (wp_mono ?_ (keeps_scheduleRepairsForNode rf updated.nodeId _ ⟨hnext, rfl⟩))
      fun _ => keeps_pure _
    rintro r q ⟨hq, hnodes⟩
    refine ⟨hq, fun m hm => ?_⟩
    rw [← hsame m hm]
    unfold Db.node?
    rw [hnodes]
    rfl

lemma wp_evaluate (rf : ℕ) (h : Guarded p) (hn : p.session.view.node? node.nodeId = some node)
    (hheard : Heard delays now node) :
    wp any (fun _ => Evaluated p.session.view node.nodeId) (evaluate delays rf now node) p := by
  have hnone : wp any (fun _ => Evaluated p.session.view node.nodeId)
      (pure none : Job (Option NodeTransition)) p := wp_pure.mpr (Evaluated.refl h _)
  unfold evaluate
  split
  · next last hlast hs => exact wp_ite.mpr ⟨fun _ => wp_becomeSuspect h hn hs, fun _ => hnone⟩
  · next last hlast hs =>
    refine wp_ite.mpr ⟨fun hlate => ?_, fun _ => hnone⟩
    exfalso
    exact absurd hlate (not_le.mpr (hheard hs last hlast))
  · refine wp_ite.mpr ⟨fun _ => ?_, fun _ => hnone⟩
    exact wp_becomeUnavailable rf h hn
  · exact hnone

/-- The nodes still to be evaluated are as they were listed. -/
structure Listed (delays : Delays) (now : Time) (rest : List StorageNode) (p : Watch ρ) : Prop where
  guarded : Guarded p
  distinct : (rest.map StorageNode.nodeId).Nodup
  rows : ∀ n ∈ rest, p.session.view.node? n.nodeId = some n
  heard : ∀ n ∈ rest, Heard delays now n

lemma listed_start (h : Guarded p) (hheard : ∀ n ∈ p.session.view.nodes, Heard delays now n) :
    Listed delays now (listNodes p.session.view) p.look := by
  have hperm := List.mergeSort_perm p.session.view.nodes (fun n m => decide (n.nodeId ≤ m.nodeId))
  refine ⟨h.look, ?_, fun n hn => ?_, fun n hn => hheard n (hperm.mem_iff.mp hn)⟩
  · exact ((hperm.map StorageNode.nodeId).nodup_iff).mpr h.keys.distinct
  · exact Table.lookup_of_mem h.keys.distinct (hperm.mem_iff.mp hn)

lemma Listed.evaluate {rest : List StorageNode} (rf : ℕ) (h : Listed delays now (node :: rest) p) :
    wp any (Post.seq (fun _ => Listed delays now rest) fun _ => Guarded)
      (evaluate delays rf now node) p := by
  have hmem : node ∈ node :: rest := List.mem_cons_self
  refine wp_mono ?_ (wp_evaluate rf h.guarded (h.rows node hmem) (h.heard node hmem))
  rintro r q ⟨hq, hsame⟩
  cases r with
  | error e => exact hq
  | ok t =>
    obtain ⟨hnode, hrest⟩ := List.nodup_cons.mp h.distinct
    refine ⟨hq, hrest, fun n hn => ?_, fun n hn => h.heard n (List.mem_cons_of_mem _ hn)⟩
    have hne : n.nodeId ≠ node.nodeId := by
      rintro he
      exact hnode (he ▸ List.mem_map_of_mem hn)
    rw [hsame n.nodeId hne]
    exact h.rows n (List.mem_cons_of_mem _ hn)

lemma wp_scan (rf : ℕ) (h : Guarded p) (hheard : ∀ n ∈ p.session.view.nodes, Heard delays now n) :
    wp any (fun _ => Guarded) (scan delays rf now) p := by
  refine wp_bind.mpr (wp_query.mpr (wp_bind.mpr ?_))
  refine wp_mono ?_ (wp_forEach (fun _ _ _ hl => hl.evaluate rf) (listed_start h hheard))
  intro r q hq
  cases r with
  | error e => exact hq
  | ok ts => exact wp_pure.mpr hq.guarded

end Scan

/-- No scan finds a `RECOVERING` node that has been silent for the time after which it is
suspected. -/
def HeardBy (policy : Policy) (db : Db) : Step → Prop
  | .scan now => ∀ n ∈ db.nodes, Heard policy.delays now n
  | _ => True

def HeardRun (serve : ∀ {β : Type}, Request β → ρ → β × ρ) (policy : Policy) :
    List Step → Watch ρ → Prop
  | [], _ => True
  | step :: steps, p =>
    HeardBy policy p.session.view step ∧ HeardRun serve policy steps (perform serve policy p step)

section Runs

variable {serve : ∀ {β : Type}, Request β → ρ → β × ρ} {policy : Policy}

lemma Guarded.perform {p : Watch ρ} (h : Guarded p) {step : Step}
    (hheard : HeardBy policy p.session.view step) : Guarded (perform serve policy p step) := by
  have hjob : wp any (fun _ => Guarded) (step.job policy) (Health.resume p) := by
    cases step with
    | ingest payload =>
      exact wp_bind_keeps (keeps_ingest payload _ h.resume) fun _ => keeps_pure _
    | ingestAndRecover payload =>
      exact wp_bind_keeps (keeps_ingestAndRecover _ payload _ h.resume) fun _ => keeps_pure _
    | scan now => exact wp_bind_keeps (wp_scan _ h.resume hheard) fun _ => keeps_pure _
  exact wp_sound (fun _ _ => trivial) hjob

lemma Guarded.performAll {p : Watch ρ} (h : Guarded p) {steps : List Step}
    (hheard : HeardRun serve policy steps p) : Guarded (performAll serve policy steps p) := by
  induction steps generalizing p with
  | nil => exact h
  | cons step steps ih => exact ih (h.perform hheard.1) hheard.2

lemma guarded_watch {db : Db} (hk : db.NodeKeys) (w : ρ) : Guarded (watch db w) where
  keys := hk
  held := by
    intro n hn
    rcases hn with hn | hn
    · exact hn.elim
    · exact Or.inl hn
  between := by
    intro n pre s w mid s' w' post he
    have hlen := congrArg List.length he
    simp only [watch, List.length_append, List.length_cons, List.length_nil] at hlen
    omega

end Runs

theorem healthy_again_only_after_reconciliation (serve : ∀ {β : Type}, Request β → ρ → β × ρ)
    (policy : Policy) (db : Db) (w : ρ) (hk : db.NodeKeys) (steps : List Step)
    (hheard : HeardRun serve policy steps (watch db w)) :
    ReconciledBetween (performAll serve policy steps (watch db w)).past :=
  ((guarded_watch hk w).performAll hheard).between

def samplePolicy : Policy := ⟨⟨15, 30, by decide, by decide⟩, 1⟩

def samplePayload (timestamp : Time) : HeartbeatPayload :=
  ⟨"a", 100, 7, timestamp, by decide, by decide, by decide⟩

def lostNode : StorageNode :=
  { nodeId := "a", address := "http://a", status := .unavailable, capacityBytes := 100,
    lastHeartbeatAt := some 0 }

def lostNodeDb : Db := { sampleDb with nodes := [lostNode] }

def silentWorld : World where
  store := sampleStore
  future := fun _ => { fault := some (.refused ⟨.unavailable, "Storage node is unavailable."⟩) }

theorem recovering_node_heard :
    HeardRun Storage.serve samplePolicy [.ingest (samplePayload 10), .scan 12]
        (watch lostNodeDb silentWorld) ∧
      ReconciledBetween (performAll Storage.serve samplePolicy
        [.ingest (samplePayload 10), .scan 12] (watch lostNodeDb silentWorld)).past := by
  have hheard : HeardRun Storage.serve samplePolicy [.ingest (samplePayload 10), .scan 12]
      (watch lostNodeDb silentWorld) := by
    refine ⟨trivial, ?_, trivial⟩
    unfold HeardBy Heard
    decide +kernel
  refine ⟨hheard, healthy_again_only_after_reconciliation Storage.serve samplePolicy lostNodeDb
    silentWorld ⟨?_, ?_⟩ _ hheard⟩
  · decide +kernel
  · decide +kernel

def statusIn (n : String) : Event Db ρ Note → Option NodeState
  | .state s _ => statusOf s.view n
  | .note _ => none

def isNote (m : Note) : Event Db ρ Note → Bool
  | .state _ _ => false
  | .note m' => m = m'

lemma not_reconciledBetween {n : String} {past : List (Event Db ρ Note)}
    (hfirst : past.head?.bind (statusIn n) = some .unavailable)
    (hlast : past.getLast?.bind (statusIn n) = some .healthy)
    (hnote : past.all (fun e => !isNote (.reconciled n true) e) = true) : ¬ReconciledBetween past := by
  intro h
  obtain ⟨first, hf, hfs⟩ := Option.bind_eq_some_iff.mp hfirst
  obtain ⟨last, hl, hls⟩ := Option.bind_eq_some_iff.mp hlast
  obtain ⟨init, rfl⟩ := List.getLast?_eq_some_iff.mp hl
  cases init with
  | nil =>
    cases hf
    rw [hfs] at hls
    cases hls
  | cons c mid =>
    cases hf
    cases first with
    | note m => cases hfs
    | state s w =>
      cases last with
      | note m => cases hls
      | state s' w' =>
        have hmem := h n [] s w mid s' w' [] rfl hfs hls
        have hno := List.all_eq_true.mp hnote _ (List.mem_append_left _ (List.mem_cons_of_mem _ hmem))
        simp [isNote] at hno

theorem suspect_detour_skips_reconciliation :
    ¬ReconciledBetween (performAll Storage.serve samplePolicy
      [.ingestAndRecover (samplePayload 10), .scan 30, .ingest (samplePayload 31)]
      (watch lostNodeDb silentWorld)).past := by
  apply not_reconciledBetween (n := "a")
  · decide +kernel
  · decide +kernel
  · decide +kernel

end Vault.Health
