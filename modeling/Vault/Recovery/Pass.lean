import Vault.Integrity.Condemned
import Vault.Recovery.Reconciliation
import Vault.Repair.Outcomes

/-! A reconciliation pass, replica by replica. Each known replica is visited once, and what its node answers puts
it into one of four classes; the rows, the jobs and the accumulator after any number of visits are described by
the list of the visits. The world carries a record of the `VERIFY` calls. -/

namespace Vault.Recovery

open Vault.Common Vault.Metadata Vault.Storage Vault.Lib Vault.Lib.Script Vault.Lib.Transaction
open Vault.Integrity (Report)

inductive Finding
  | healthy | missing | corrupted | uncontacted
  deriving DecidableEq, Repr

/-- What an answer of the node says of the replica. -/
def finding (version : Version) (answer : Except ClientError Blob) : Finding :=
  match raiseOnInvalid answer with
  | .ok measured => if measured.Matches version then .healthy else .corrupted
  | .error e =>
    match e.kind with
    | .objectNotFound => .missing
    | .integrity => .corrupted
    | _ => .uncontacted

/-- The visit of a replica, and whether a repair that it asks for was refused. -/
structure Visit where
  replica : Replica
  finding : Finding
  refused : Bool := false
  deriving DecidableEq, Repr

def Visit.Damaged (v : Visit) : Prop := v.finding = .missing ∨ v.finding = .corrupted

instance (v : Visit) : Decidable v.Damaged := inferInstanceAs (Decidable (_ ∨ _))

/-- A replica that is found right is not `COPYING`, and only a damaged one asks for a repair. -/
structure Visit.Sound (v : Visit) : Prop where
  settling : v.finding = .healthy → v.replica.status ≠ .copying
  damaged : v.refused = true → v.Damaged

/-- The row as the visit leaves it. -/
def Settled (v : Visit) (r : Replica) : Prop :=
  r.replicaId = v.replica.replicaId ∧ r.place = v.replica.place ∧
    match v.finding with
    | .healthy => r.status = .healthy
    | .missing => r = if v.replica.status = .healthy then v.replica.enter .unavailable else v.replica
    | .corrupted => r = if v.replica.status = .healthy then v.replica.enter .corrupted else v.replica
    | .uncontacted => r = v.replica

/-- The tables after the visits. -/
structure Passed (db : Db) (visits : List Visit) (view : Db) : Prop where
  nodes : view.nodes = db.nodes
  versions : view.versions = db.versions
  ids : view.replicas.map Replica.replicaId = db.replicas.map Replica.replicaId
  untouched : ∀ r ∈ db.replicas, (∀ v ∈ visits, v.replica.replicaId ≠ r.replicaId) → r ∈ view.replicas
  settled : ∀ v ∈ visits, ∃ r ∈ view.replicas, Settled v r
  scheduled : ∀ v ∈ visits, v.Damaged → v.refused = false →
    ∃ job ∈ view.repairJobs, job.versionId = v.replica.versionId ∧ Repair.Active job.status

/-- The accumulator after the visits. -/
structure Tally (visits : List Visit) (acc : RecoveryResult) : Prop where
  checked : acc.checkedReplicas =
    acc.healthyReplicas + acc.missingReplicaIds.length + acc.corruptedReplicaIds.length
  healthy : acc.healthyReplicas = (visits.filter (fun v => v.finding = .healthy)).length
  missing : acc.missingReplicaIds = (visits.filter (fun v => v.finding = .missing)).map (·.replica.replicaId)
  corrupted : acc.corruptedReplicaIds = (visits.filter (fun v => v.finding = .corrupted)).map (·.replica.replicaId)
  unresolved : acc.unresolvedReplicaIds =
    (visits.filter (fun v => v.finding = .uncontacted ∨ v.refused = true)).map (·.replica.replicaId)
  complete : acc.complete = true ↔ ∀ v ∈ visits, v.finding ≠ .uncontacted

/-- The `VERIFY` call of a visit. -/
def Borne (db : Db) (nodeId : String) (report : Report) (v : Visit) : Prop :=
  report.nodeId = nodeId ∧ report.versionId = v.replica.versionId ∧
    ∀ version ∈ db.version? v.replica.versionId, finding version report.answer = v.finding

/-- Since `before`, the record has grown by one call for each visit. -/
def Recorded (db : Db) (nodeId : String) (before log : List Report) (visits : List Visit) : Prop :=
  ∃ calls, log = before ++ calls ∧ List.Forall₂ (Borne db nodeId) calls visits

/-- The pass is cut short at a `COPYING` replica whose bytes are right. -/
def Cut (db : Db) (nodeId : String) (before log : List Report) (done rest : List Replica) (view : Db) : Prop :=
  ∃ visits r rest', done ++ rest = visits.map Visit.replica ++ r :: rest' ∧ r.status = .copying ∧
    Passed db visits view ∧ Recorded db nodeId before log (visits ++ [⟨r, .healthy, false⟩])

section Answers

variable {ρ : Type}

/-- Requests are answered as `A` allows, and each `VERIFY` is recorded. -/
def logged (A : ∀ β : Type, Request β → β → Prop) : ∀ {β : Type}, Request β → ρ × List Report → β →
    ρ × List Report → Prop
  | _, .verify n i, w, b, w' => A _ (.verify n i) b ∧ w'.2 = w.2 ++ [⟨n, i, b⟩]
  | _, .delete n i, w, b, w' => A _ (.delete n i) b ∧ w'.2 = w.2
  | _, .stream n i, w, b, w' => A _ (.stream n i) b ∧ w'.2 = w.2
  | _, .put n i, w, b, w' => A _ (.put n i) b ∧ w'.2 = w.2
  | _, .poll n, w, b, w' => A _ (.poll n) b ∧ w'.2 = w.2
  | _, .now, w, b, w' => A _ .now b ∧ w'.2 = w.2
  | _, .enqueue i j, w, b, w' => A _ (.enqueue i j) b ∧ w'.2 = w.2

/-- A world that also keeps the record. -/
def logging (serve : ∀ {β : Type}, Request β → ρ → β × ρ) : ∀ {β : Type}, Request β → ρ × List Report →
    β × (ρ × List Report)
  | _, .verify n i, w =>
    ((serve (.verify n i) w.1).1, (serve (.verify n i) w.1).2, w.2 ++ [⟨n, i, (serve (.verify n i) w.1).1⟩])
  | _, .delete n i, w => ((serve (.delete n i) w.1).1, (serve (.delete n i) w.1).2, w.2)
  | _, .stream n i, w => ((serve (.stream n i) w.1).1, (serve (.stream n i) w.1).2, w.2)
  | _, .put n i, w => ((serve (.put n i) w.1).1, (serve (.put n i) w.1).2, w.2)
  | _, .poll n, w => ((serve (.poll n) w.1).1, (serve (.poll n) w.1).2, w.2)
  | _, .now, w => ((serve .now w.1).1, (serve .now w.1).2, w.2)
  | _, .enqueue i j, w => ((serve (.enqueue i j) w.1).1, (serve (.enqueue i j) w.1).2, w.2)

lemma logged_logging {serve : ∀ {β : Type}, Request β → ρ → β × ρ} {A : ∀ β : Type, Request β → β → Prop}
    (h : ∀ {β : Type} (q : Request β) (w : ρ), A _ q (serve q w).1) {β : Type} (q : Request β) (w : ρ × List Report) :
    logged A q w (logging serve q w).1 (logging serve q w).2 := by
  cases q <;> exact ⟨h _ _, rfl⟩

end Answers

section Rows

variable {db view : Db} {visits : List Visit} {v : Visit} {r : Replica}

lemma Passed.start (db : Db) : Passed db [] db :=
  ⟨rfl, rfl, rfl, fun _ hr _ => hr, by simp, by simp⟩

lemma Passed.distinct (h : Passed db visits view) (hids : (db.replicas.map Replica.replicaId).Nodup) :
    (view.replicas.map Replica.replicaId).Nodup := by
  rw [h.ids]
  exact hids

lemma Passed.replica? (h : Passed db visits view) (hids : (db.replicas.map Replica.replicaId).Nodup)
    (hr : r ∈ db.replicas) (hnew : ∀ v ∈ visits, v.replica.replicaId ≠ r.replicaId) :
    view.replica? r.replicaId = some r :=
  Table.lookup_of_mem (h.distinct hids) (h.untouched r hr hnew)

lemma Passed.version? (h : Passed db visits view) (i : UUID) : view.version? i = db.version? i := by
  unfold Db.version?
  rw [h.versions]

lemma Passed.node? (h : Passed db visits view) (n : String) : view.node? n = db.node? n := by
  unfold Db.node?
  rw [h.nodes]

/-- The rows of replicas that are visited later stay as they are. -/
lemma Passed.mono_untouched (h : Passed db visits view) {s : Replica} (hs : s ∈ db.replicas)
    (hv : ∀ v' ∈ visits ++ [v], v'.replica.replicaId ≠ s.replicaId) : s ∈ view.replicas :=
  h.untouched s hs fun v' hv' => hv v' (List.mem_append_left _ hv')

/-- A visit that leaves the row as it is. -/
lemma Passed.keep (h : Passed db visits view) (hv : v.replica ∈ view.replicas) (hsettled : Settled v v.replica)
    (hjob : v.Damaged → v.refused = false →
      ∃ job ∈ view.repairJobs, job.versionId = v.replica.versionId ∧ Repair.Active job.status) :
    Passed db (visits ++ [v]) view := by
  refine ⟨h.nodes, h.versions, h.ids, fun s hs => h.mono_untouched hs, fun v' hv' => ?_, fun v' hv' => ?_⟩
  · rcases List.mem_append.mp hv' with hv' | hv'
    · exact h.settled v' hv'
    · rw [List.mem_singleton.mp hv']
      exact ⟨v.replica, hv, hsettled⟩
  · rcases List.mem_append.mp hv' with hv' | hv'
    · exact h.scheduled v' hv'
    · rw [List.mem_singleton.mp hv']
      exact hjob

/-- A visit that rewrites the row. -/
lemma Passed.amend (h : Passed db visits view) (hv : v.replica ∈ view.replicas) (hnew : ∀ v' ∈ visits, v'.replica.replicaId ≠ v.replica.replicaId)
    {f : Replica → Replica} (hid : ∀ r, (f r).replicaId = r.replicaId) (hsettled : Settled v (f v.replica))
    (hjob : v.Damaged → v.refused = false →
      ∃ job ∈ view.repairJobs, job.versionId = v.replica.versionId ∧ Repair.Active job.status) :
    Passed db (visits ++ [v]) (view.amendReplica v.replica.replicaId f) := by
  have hother : ∀ s ∈ view.replicas, s.replicaId ≠ v.replica.replicaId →
      s ∈ (view.amendReplica v.replica.replicaId f).replicas :=
    fun s hs hne => Table.mem_amend.mpr ⟨s, hs, if_neg hne⟩
  refine ⟨h.nodes, h.versions, ?_, fun s hs hfree => ?_, fun v' hv' => ?_, fun v' hv' => ?_⟩
  · rw [← h.ids]
    exact Table.map_amend Replica.replicaId hid _
  · exact hother s (h.mono_untouched hs hfree) (hfree v (by simp)).symm
  · rcases List.mem_append.mp hv' with hv' | hv'
    · obtain ⟨s, hs, hset⟩ := h.settled v' hv'
      exact ⟨s, hother s hs (hset.1.trans_ne (hnew v' hv')), hset⟩
    · rw [List.mem_singleton.mp hv']
      exact ⟨f v.replica, Table.mem_amend.mpr ⟨v.replica, hv, if_pos rfl⟩, hsettled⟩
  · rcases List.mem_append.mp hv' with hv' | hv'
    · exact h.scheduled v' hv'
    · rw [List.mem_singleton.mp hv']
      exact hjob

lemma Passed.of_scheduling (h : Passed db visits view) {view' : Db} {i : UUID} {rf : ℤ} {reason : Arg String}
    {preferred : Option Replica} {x : Except Failure (Option RepairJob)}
    (hx : Repair.Scheduling view i rf reason preferred x view') : Passed db visits view' := by
  cases hx with
  | created v s t hv hless hs ht hactive =>
    refine ⟨h.nodes, h.versions, h.ids, h.untouched, h.settled, fun v' hv' hd hr => ?_⟩
    obtain ⟨job, hjob, hrest⟩ := h.scheduled v' hv' hd hr
    exact ⟨job, List.mem_append_left _ hjob, hrest⟩
  | enough => exact h
  | reused => exact h
  | failed => exact h

/-- The repair of a damaged replica is scheduled after its row is written. -/
lemma Passed.resolve (h : Passed db (visits ++ [{ v with refused := true }]) view)
    (hjob : ∃ job ∈ view.repairJobs, job.versionId = v.replica.versionId ∧ Repair.Active job.status) :
    Passed db (visits ++ [{ v with refused := false }]) view := by
  have hlast : ({ v with refused := true } : Visit) ∈ visits ++ [{ v with refused := true }] := by simp
  refine ⟨h.nodes, h.versions, h.ids, fun s hs hfree => h.untouched s hs fun v' hv' => ?_, fun v' hv' => ?_,
    fun v' hv' hd hr => ?_⟩
  · rcases List.mem_append.mp hv' with hv' | hv'
    · exact hfree v' (List.mem_append_left _ hv')
    · rw [List.mem_singleton.mp hv']
      exact hfree { v with refused := false } (by simp)
  · rcases List.mem_append.mp hv' with hv' | hv'
    · exact h.settled v' (List.mem_append_left _ hv')
    · rw [List.mem_singleton.mp hv']
      obtain ⟨s, hs, hset⟩ := h.settled _ hlast
      exact ⟨s, hs, hset⟩
  · rcases List.mem_append.mp hv' with hv' | hv'
    · exact h.scheduled v' (List.mem_append_left _ hv') hd hr
    · rw [List.mem_singleton.mp hv']
      exact hjob

end Rows

section Counting

variable {visits : List Visit} {v : Visit} {acc acc' : RecoveryResult}

/-- What one visit adds to the accumulator. -/
structure Counted (v : Visit) (acc acc' : RecoveryResult) : Prop where
  checked : acc'.checkedReplicas = acc.checkedReplicas + if v.finding = .uncontacted then 0 else 1
  healthy : acc'.healthyReplicas = acc.healthyReplicas + if v.finding = .healthy then 1 else 0
  missing : acc'.missingReplicaIds =
    acc.missingReplicaIds ++ if v.finding = .missing then [v.replica.replicaId] else []
  corrupted : acc'.corruptedReplicaIds =
    acc.corruptedReplicaIds ++ if v.finding = .corrupted then [v.replica.replicaId] else []
  unresolved : acc'.unresolvedReplicaIds = acc.unresolvedReplicaIds ++
    if v.finding = .uncontacted ∨ v.refused = true then [v.replica.replicaId] else []
  complete : acc'.complete = true ↔ acc.complete = true ∧ v.finding ≠ .uncontacted

lemma Tally.start (n : String) : Tally [] { nodeId := n } := ⟨rfl, rfl, rfl, rfl, rfl, by simp⟩

lemma Tally.counted (h : Tally visits acc) (hc : Counted v acc acc') : Tally (visits ++ [v]) acc' := by
  have hfilter : ∀ (p : Visit → Bool), ((visits ++ [v]).filter p).map (·.replica.replicaId) =
      (visits.filter p).map (·.replica.replicaId) ++ if p v then [v.replica.replicaId] else [] := by
    intro p
    rw [List.filter_append, List.map_append, List.filter_singleton]
    cases p v <;> rfl
  refine ⟨?_, ?_, ?_, ?_, ?_, ?_⟩
  · rw [hc.checked, hc.healthy, hc.missing, hc.corrupted, h.checked]
    cases v.finding <;> simp <;> omega
  · rw [hc.healthy, h.healthy, List.filter_append, List.length_append, List.filter_singleton]
    by_cases hv : v.finding = .healthy <;> simp [hv]
  · rw [hc.missing, h.missing, hfilter]
    simp
  · rw [hc.corrupted, h.corrupted, hfilter]
    simp
  · rw [hc.unresolved, h.unresolved, hfilter]
    simp
  · rw [hc.complete, h.complete]
    simp [or_imp, forall_and]

end Counting

section Visits

variable {ρ : Type} {A : ∀ β : Type, Request β → β → Prop} {db : Db} {visits : List Visit} {r : Replica}
  {version : Version} {acc : RecoveryResult} {rf : ℕ} {n : String} {before : List Report}
  {p : Point Db (ρ × List Report) Note}

/-- The replica that the pass comes to. -/
structure Due (db : Db) (visits : List Visit) (r : Replica) (version : Version) : Prop where
  ids : (db.replicas.map Replica.replicaId).Nodup
  row : r ∈ db.replicas
  fresh : ∀ v ∈ visits, v.replica.replicaId ≠ r.replicaId
  version_eq : db.version? r.versionId = some version
  live : r.status ≠ .failed

lemma Due.replica? (h : Due db visits r version) {view : Db} (hp : Passed db visits view) :
    view.replica? r.replicaId = some r := hp.replica? h.ids h.row h.fresh

lemma Due.mem (h : Due db visits r version) {view : Db} (hp : Passed db visits view) : r ∈ view.replicas :=
  hp.untouched r h.row h.fresh

lemma Due.view_version? (h : Due db visits r version) {view : Db} (hp : Passed db visits view) :
    view.version? r.versionId = some version := (hp.version? _).trans h.version_eq

/-- A measurement that matches makes the row healthy, unless the row is `COPYING`. -/
lemma wp_markVerifiedReplica (hd : Due db visits r version) (hp : Passed db visits p.session.view) {measured : Blob}
    (hm : measured.Matches version) :
    wp (logged A) (Post.seq (fun _ q => r.status ≠ .copying ∧ Passed db (visits ++ [⟨r, .healthy, false⟩]) q.session.view ∧
      q.world.2 = p.world.2) fun _ q => r.status = .copying ∧ Passed db visits q.session.view ∧
      q.world.2 = p.world.2) (markVerifiedReplica r measured) p := by
  obtain ⟨-, hc, hz⟩ := hm
  have hamend : ∀ {f : Replica → Replica}, (∀ r, (f r).replicaId = r.replicaId) → Settled ⟨r, .healthy, false⟩ (f r) →
      Passed db (visits ++ [⟨r, .healthy, false⟩]) (p.session.view.amendReplica r.replicaId f) := fun hid hset =>
    hp.amend (hd.mem hp) hd.fresh hid hset (by rintro (h | h) <;> cases h)
  unfold markVerifiedReplica
  rw [hc, hz]
  refine wp_ite.mpr ⟨fun hs => ?_, fun hs => wp_ite.mpr ⟨fun hf => absurd hf hd.live, fun _ => ?_⟩⟩
  · refine wp_bind.mpr (wp_request.mpr fun now w hw => ?_)
    have hrun := recordVerified_along now (hd.replica? hp) (hd.view_version? hp) hs
    refine wp_bind.mpr (wp_transaction_ok hrun fun s hview => wp_pure.mpr ⟨by simp [hs], ?_, hw.2⟩)
    change Passed _ _ s.view
    rw [hview]
    exact hamend (fun _ => rfl) ⟨rfl, rfl, hs⟩
  · refine wp_ite.mpr ⟨fun hrepairable => ?_, fun hno => ?_⟩
    · have hne : r.status ≠ .repairing := by
        intro he
        simp [he] at hrepairable
      have hedge : .repairing ∈ replicaStateTransitions r.status := by
        simp only [List.mem_cons, List.not_mem_nil, or_false] at hrepairable
        rcases hrepairable with h | h | h | h <;> rw [h] <;> decide
      refine wp_bind.mpr (wp_transaction_ok (setReplicaState_along (hd.replica? hp) hne hedge) fun s hview => ?_)
      refine wp_bind.mpr (wp_request.mpr fun now w hw => ?_)
      have hrow : s.view.replica? (r.enter .repairing).replicaId = some (r.enter .repairing) := by
        rw [hview]
        exact Table.lookup_amend_self (f := Replica.enter .repairing) (fun _ => rfl) (hd.replica? hp)
      have hversion : s.view.version? (r.enter .repairing).versionId = some version := by
        rw [hview]
        exact (hd.view_version? hp : p.session.view.version? r.versionId = some version)
      have hrun := markVerified_along now hrow hversion (Or.inr rfl)
      refine wp_bind.mpr (wp_transaction_ok hrun fun s' hview' =>
        wp_pure.mpr ⟨fun he => by simp [he] at hrepairable, ?_, hw.2⟩)
      change Passed _ _ s'.view
      rw [hview']
      change Passed _ _ (s.view.amendReplica r.replicaId _)
      rw [hview, Db.amendReplica_amendReplica (f := Replica.enter .repairing) fun _ => rfl]
      exact hamend (fun _ => rfl) ⟨rfl, rfl, rfl⟩
    · refine wp_bind.mpr (wp_require.mpr ⟨fun hrepairing => ?_, fun hother => ?_⟩)
      · refine wp_bind.mpr (wp_request.mpr fun now w hw => ?_)
        have hrun := markVerified_along now (hd.replica? hp) (hd.view_version? hp) (Or.inr hrepairing)
        refine wp_bind.mpr (wp_transaction_ok hrun fun s hview => wp_pure.mpr ⟨by simp [hrepairing], ?_, hw.2⟩)
        change Passed _ _ s.view
        rw [hview]
        exact hamend (fun _ => rfl) ⟨rfl, rfl, rfl⟩
      · refine ⟨?_, hp, rfl⟩
        have hlive := hd.live
        cases hs' : r.status <;> simp_all

/-- The node of the replica is registered and not healthy, so that it is no target of a repair. -/
def Ailing (db : Db) (n : String) : Prop := ∃ node ∈ db.node? n, node.status ≠ .healthy

lemma Ailing.of_passed (h : Ailing db n) {view : Db} (hp : Passed db visits view) : Ailing view n := by
  unfold Ailing
  rwa [hp.node?]

lemma wp_scheduleRepair (hrf : 1 ≤ rf) (i : UUID) (hailing : Ailing p.session.view r.nodeId) (reason : String) :
    wp (logged A) (Post.seq (fun res q => q.world = p.world ∧
      ((∃ job, res = (some job.repairId, none) ∧
          Repair.Scheduling p.session.view i rf (.value reason) (some r) (.ok (some job)) q.session.view) ∨
        ∃ e message, res = (none, some message) ∧
          Repair.Scheduling p.session.view i rf (.value reason) (some r) (.error e) q.session.view))
      fun _ _ => False) (scheduleRepair rf i r reason) p := by
  refine wp_handle.mpr (wp_bind.mpr (wp_mono ?_ (Repair.wp_schedule i rf (.value reason) (some r) p)))
  rintro x q ⟨hx, hworld⟩
  obtain ⟨node, hn, hs⟩ := hailing
  have hpref : ∀ v, p.session.view.version? i = some v → Repair.preferredNode p.session.view v (some r) = none :=
    fun v _ => Repair.preferredNode_of_not_healthy hn hs
  cases x with
  | error e =>
    obtain ⟨x, rfl⟩ := hx.vault (by exact_mod_cast hrf) hpref
    exact wp_pure.mpr ⟨hworld, Or.inr ⟨_, _, rfl, hx⟩⟩
  | ok job? =>
    cases job? with
    | none => cases hx.preferred_none
    | some job => exact wp_pure.mpr ⟨hworld, Or.inl ⟨job, rfl, hx⟩⟩

/-- What becomes of a row that is found damaged. -/
def damagedState : Finding → ReplicaState
  | .missing => .unavailable
  | _ => .corrupted

lemma settled_damaged {f : Finding} (hf : f = .missing ∨ f = .corrupted) (refused : Bool) (r : Replica) :
    Settled ⟨r, f, refused⟩ (if r.status = .healthy then r.enter (damagedState f) else r) := by
  rcases hf with rfl | rfl
  all_goals
    refine ⟨?_, ?_, rfl⟩
    · split_ifs <;> rfl
    · split_ifs <;> rfl

/-- A damaged replica: its row is marked, and a repair is scheduled or refused. -/
lemma wp_repairDamaged (hrf : 1 ≤ rf) (hd : Due db visits r version) (hp : Passed db visits p.session.view)
    (hailing : Ailing db r.nodeId) {f : Finding} (hf : f = .missing ∨ f = .corrupted) (reason : String) :
    wp (logged A) (Post.seq (fun acc' q => ∃ refused repairIds errors,
      Passed db (visits ++ [⟨r, f, refused⟩]) q.session.view ∧ q.world.2 = p.world.2 ∧
      acc' = { acc with
        repairIds := repairIds
        unresolvedReplicaIds := acc.unresolvedReplicaIds ++ if refused = true then [r.replicaId] else []
        errors := errors }) fun _ _ => False) (repairDamaged rf version r (damagedState f) reason acc) p := by
  have hid : version.versionId = r.versionId := Table.lookup_key hd.version_eq
  -- The row is written first, as if the repair were refused.
  have hrest : ∀ q : Point Db (ρ × List Report) Note, Passed db (visits ++ [⟨r, f, true⟩]) q.session.view →
      q.world.2 = p.world.2 → wp (logged A) (Post.seq (fun acc' q => ∃ refused repairIds errors,
        Passed db (visits ++ [⟨r, f, refused⟩]) q.session.view ∧ q.world.2 = p.world.2 ∧
        acc' = { acc with
          repairIds := repairIds
          unresolvedReplicaIds := acc.unresolvedReplicaIds ++ if refused = true then [r.replicaId] else []
          errors := errors }) fun _ _ => False) (scheduleRepair rf version.versionId r reason >>= fun answer => pure
        { acc with
          repairIds := acc.repairIds ++ answer.1.toList
          unresolvedReplicaIds := acc.unresolvedReplicaIds ++ answer.2.toList.map (fun _ => r.replicaId)
          errors := acc.errors ++ answer.2.toList.map (fun e => s!"{r.replicaId}: {e}") }) q := by
    intro q hq hlog
    refine wp_bind.mpr (wp_mono ?_ (wp_scheduleRepair hrf version.versionId (hailing.of_passed hq) reason))
    intro x q' hx
    cases x with
    | error e => exact hx.elim
    | ok res =>
      obtain ⟨hworld, ⟨job, rfl, hx⟩ | ⟨e, message, rfl, hx⟩⟩ := hx
      · obtain ⟨hmem, hversion, hactive⟩ := hx.job_active
        refine wp_pure.mpr ⟨false, _, _, ?_, ?_, rfl⟩
        · exact (hq.of_scheduling hx).resolve (v := ⟨r, f, false⟩) ⟨job, hmem, hversion.trans hid, hactive⟩
        · rw [hworld, hlog]
      · refine wp_pure.mpr ⟨true, _, _, hq.of_scheduling hx, ?_, rfl⟩
        rw [hworld, hlog]
  have hsettled := settled_damaged hf true r
  refine wp_ite.mpr ⟨fun hs => ?_, fun hs => ?_⟩
  · have hne : r.status ≠ damagedState f := by
      rw [hs]
      rcases hf with rfl | rfl <;> decide
    have hedge : damagedState f ∈ replicaStateTransitions r.status := by
      rw [hs]
      rcases hf with rfl | rfl <;> decide
    refine wp_bind.mpr (wp_transaction_ok (setReplicaState_along (hd.replica? hp) hne hedge) fun s hview => ?_)
    refine hrest (p.move s) ?_ rfl
    change Passed _ _ s.view
    rw [hview]
    rw [if_pos hs] at hsettled
    exact hp.amend (v := ⟨r, f, true⟩) (hd.mem hp) hd.fresh (fun _ => rfl) hsettled (by simp)
  · rw [if_neg hs] at hsettled
    exact hrest p (hp.keep (v := ⟨r, f, true⟩) (hd.mem hp) hsettled (by simp)) rfl

lemma Recorded.start (db : Db) (n : String) (before : List Report) : Recorded db n before before [] :=
  ⟨[], by simp, .nil⟩

/-- One more visit, with its call. -/
lemma Recorded.visit {log : List Report} (h : Recorded db n before log visits) {v : Visit} {report : Report}
    (hv : Borne db n report v) : Recorded db n before (log ++ [report]) (visits ++ [v]) := by
  obtain ⟨calls, rfl, hcalls⟩ := h
  exact ⟨calls ++ [report], List.append_assoc _ _ _, List.rel_append hcalls (.cons hv .nil)⟩

/-- What a visit comes to. -/
def Visited (db : Db) (n : String) (before : List Report) (visits : List Visit) (r : Replica)
    (acc acc' : RecoveryResult) (q : Point Db (ρ × List Report) Note) : Prop :=
  ∃ v : Visit, v.replica = r ∧ v.Sound ∧
    Passed db (visits ++ [v]) q.session.view ∧ Recorded db n before q.world.2 (visits ++ [v]) ∧ Counted v acc acc'

/-- The visit of a `COPYING` replica whose bytes are right. -/
def Blocked (db : Db) (n : String) (before : List Report) (visits : List Visit) (r : Replica)
    (q : Point Db (ρ × List Report) Note) : Prop :=
  r.status = .copying ∧ Passed db visits q.session.view ∧
    Recorded db n before q.world.2 (visits ++ [⟨r, .healthy, false⟩])

lemma wp_reconcileReplica (hrf : 1 ≤ rf) {node : StorageNode} (hd : Due db visits r version)
    (hp : Passed db visits p.session.view) (hb : Recorded db node.nodeId before p.world.2 visits)
    (hailing : Ailing db r.nodeId) :
    wp (logged A) (Post.seq (fun acc' q => Visited db node.nodeId before visits r acc acc' q) fun _ q =>
      Blocked db node.nodeId before visits r q) (reconcileReplica rf node r acc) p := by
  have hversion := hd.view_version? hp
  have hid : version.versionId = r.versionId := Table.lookup_key hd.version_eq
  refine wp_bind.mpr (wp_query.mpr (wp_bind.mpr (wp_demand.mpr ⟨fun version' hv' => ?_, fun hnone => ?_⟩)))
  swap
  · cases hversion.symm.trans hnone
  cases hversion.symm.trans hv'
  refine wp_bind.mpr (wp_request.mpr fun answer w hw => ?_)
  rw [Post.seq_ok]
  have hlog : w.2 = p.world.2 ++ [⟨node.nodeId, r.versionId, answer⟩] := by
    rw [← hid]
    exact hw.2
  have hborne : ∀ v : Visit, v.replica = r → finding version answer = v.finding →
      Recorded db node.nodeId before w.2 (visits ++ [v]) := by
    rintro v rfl hfound
    rw [hlog]
    refine hb.visit ⟨rfl, rfl, fun version' hv' => ?_⟩
    cases hd.version_eq.symm.trans hv'
    exact hfound
  -- Every damaged replica takes the same path; the accumulator has counted it already.
  have hdamaged : ∀ {f : Finding} {acc₁ : RecoveryResult} (reason : String) (f' : RecoveryResult → RecoveryResult),
      f = .missing ∨ f = .corrupted → finding version answer = f →
      (∀ refused repairIds errors, Counted ⟨r, f, refused⟩ acc (f' { acc₁ with
        repairIds := repairIds
        unresolvedReplicaIds := acc₁.unresolvedReplicaIds ++ if refused = true then [r.replicaId] else []
        errors := errors })) →
      wp (logged A) (Post.seq (fun acc' q => Visited db node.nodeId before visits r acc (f' acc') q) fun _ q =>
        Blocked db node.nodeId before visits r q) (repairDamaged rf version r (damagedState f) reason acc₁) (p.look.turn w) := by
    intro f acc₁ reason f' hf hfound hcounted
    refine wp_mono ?_ (wp_repairDamaged hrf hd (p := p.look.turn w) hp hailing hf reason)
    intro x q hx
    cases x with
    | error e => exact hx.elim
    | ok acc' =>
      obtain ⟨refused, repairIds, errors, hpassed, hworld, rfl⟩ := hx
      refine ⟨⟨r, f, refused⟩, rfl, ⟨fun hh => ?_, fun _ => hf⟩, hpassed, ?_, hcounted _ _ _⟩
      · rcases hf with rfl | rfl <;> cases hh
      · rw [hworld]
        exact hborne ⟨r, f, refused⟩ rfl hfound
  cases hanswer : raiseOnInvalid answer with
  | ok measured =>
    refine wp_ite.mpr ⟨fun hm => ?_, fun hm => ?_⟩
    · have hfound : finding version answer = .healthy := by simp [finding, hanswer, hm]
      refine wp_bind.mpr (wp_mono ?_ (wp_markVerifiedReplica hd (p := p.look.turn w) hp hm))
      intro x q hx
      cases x with
      | error e =>
        obtain ⟨hcopying, hpassed, hworld⟩ := hx
        refine ⟨hcopying, hpassed, ?_⟩
        rw [hworld]
        exact hborne ⟨r, .healthy, false⟩ rfl hfound
      | ok _ =>
        obtain ⟨hne, hpassed, hworld⟩ := hx
        refine wp_pure.mpr ⟨⟨r, .healthy, false⟩, rfl, ⟨fun _ => hne, nofun⟩, hpassed, ?_, ?_⟩
        · rw [hworld]
          exact hborne ⟨r, .healthy, false⟩ rfl hfound
        · constructor <;> simp
    · have hfound : finding version answer = .corrupted := by simp [finding, hanswer, hm]
      refine hdamaged _ id (Or.inr rfl) hfound fun refused repairIds errors => ?_
      constructor <;> simp
  | error e =>
    dsimp only
    have hfound : finding version answer = match e.kind with
        | .objectNotFound => .missing
        | .integrity => .corrupted
        | _ => .uncontacted := by
      simp only [finding, hanswer]
    split
    · next hkind =>
      rw [hkind] at hfound
      refine hdamaged _ id (Or.inl rfl) hfound fun refused repairIds errors => ?_
      constructor <;> simp
    · next hkind =>
      rw [hkind] at hfound
      refine wp_bind.mpr (wp_mono ?_ (hdamaged _
        (fun acc => { acc with errors := acc.errors ++ [s!"{r.replicaId}: {e.message}"] }) (Or.inr rfl) hfound
        fun refused repairIds errors => by constructor <;> simp))
      intro x q hx
      cases x with
      | error e => exact hx
      | ok acc' => exact wp_pure.mpr hx
    · next hmissing hintegrity =>
      have hun : finding version answer = .uncontacted := by
        rw [hfound]
        split
        · next hkind => exact absurd hkind hmissing
        · next hkind => exact absurd hkind hintegrity
        · rfl
      refine wp_pure.mpr ⟨⟨r, .uncontacted, false⟩, rfl, ⟨nofun, nofun⟩, ?_,
        hborne ⟨r, .uncontacted, false⟩ rfl hun, ?_⟩
      · exact hp.keep (v := ⟨r, .uncontacted, false⟩) (hd.mem hp) ⟨rfl, rfl, rfl⟩ (by rintro (h | h) <;> cases h)
      · constructor <;> simp

lemma mem_knownReplicas {node : String} : r ∈ knownReplicas db node ↔
    r ∈ db.replicas ∧ r.nodeId = node ∧ (∃ v ∈ db.version? r.versionId, v.state = .committed) ∧ r.status ≠ .failed := by
  simp only [knownReplicas, Integrity.byReplicaId, List.mem_mergeSort, List.mem_filter, Integrity.committedOn,
    decide_eq_true_eq, and_assoc]

lemma nodup_knownReplicas (hids : (db.replicas.map Replica.replicaId).Nodup) (node : String) :
    ((knownReplicas db node).map Replica.replicaId).Nodup := by
  have hsub : ((Integrity.committedOn db node).filter (fun r => r.status ≠ .failed)).Sublist db.replicas :=
    (List.filter_sublist).trans List.filter_sublist
  have hperm := List.mergeSort_perm ((Integrity.committedOn db node).filter (fun r => r.status ≠ .failed))
    (fun r s => decide (r.replicaId.n ≤ s.replicaId.n))
  exact ((hperm.map Replica.replicaId).nodup_iff).mpr (hids.sublist (hsub.map _))

/-- The visits of a whole list of known replicas. -/
lemma wp_reconcileReplicas (hrf : 1 ≤ rf) {node : StorageNode} (hids : (db.replicas.map Replica.replicaId).Nodup)
    (hailing : Ailing db node.nodeId) {rest : List Replica} (hknown : ∀ r ∈ rest, r ∈ knownReplicas db node.nodeId)
    (hnodup : (visits.map (·.replica.replicaId) ++ rest.map Replica.replicaId).Nodup)
    (hp : Passed db visits p.session.view) (hb : Recorded db node.nodeId before p.world.2 visits) (ht : Tally visits acc)
    (hc : ∀ v ∈ visits, v.Sound) :
    wp (logged A) (Post.seq (fun acc' q => ∃ visits', visits'.map Visit.replica = visits.map Visit.replica ++ rest ∧
      Passed db visits' q.session.view ∧ Recorded db node.nodeId before q.world.2 visits' ∧ Tally visits' acc' ∧
      ∀ v ∈ visits', v.Sound)
      fun _ q => Cut db node.nodeId before q.world.2 (visits.map Visit.replica) rest q.session.view)
      (reconcileReplicas rf node rest acc) p := by
  induction rest generalizing visits acc p with
  | nil => exact wp_pure.mpr ⟨visits, by simp, hp, hb, ht, hc⟩
  | cons r rest ih =>
    obtain ⟨hrow, hplace, ⟨version, hversion, -⟩, hlive⟩ := mem_knownReplicas.mp (hknown r List.mem_cons_self)
    have hdue : Due db visits r version := by
      refine ⟨hids, hrow, fun v hv he => ?_, hversion, hlive⟩
      rw [List.nodup_append] at hnodup
      exact hnodup.2.2 _ (List.mem_map_of_mem hv) _ (List.mem_map_of_mem List.mem_cons_self) he
    refine wp_bind.mpr (wp_mono ?_ (wp_reconcileReplica hrf hdue hp hb (hplace ▸ hailing)))
    intro x q hx
    cases x with
    | error e =>
      obtain ⟨hcopying, hpassed, hrecorded⟩ := hx
      exact ⟨visits, r, rest, rfl, hcopying, hpassed, hrecorded⟩
    | ok acc' =>
      obtain ⟨v, rfl, hcv, hpassed, hborne, hcounted⟩ := hx
      refine wp_mono ?_ (ih (fun r hr => hknown r (List.mem_cons_of_mem _ hr)) ?_ hpassed
        hborne (ht.counted hcounted) fun v' hv' => ?_)
      · intro x' q' hx'
        cases x' with
        | error e =>
          obtain ⟨visits', r', rest', hsplit, hrest⟩ := hx'
          exact ⟨visits', r', rest', by simpa using hsplit, hrest⟩
        | ok acc'' =>
          obtain ⟨visits', hmap, hrest⟩ := hx'
          exact ⟨visits', by simpa using hmap, hrest⟩
      · simpa using hnodup
      · rcases List.mem_append.mp hv' with hv' | hv'
        · exact hc v' hv'
        · rw [List.mem_singleton.mp hv']
          exact hcv

end Visits

/-- A pass over the known replicas of a node, with the record of its calls. -/
structure Surveyed (db : Db) (n : String) (before log : List Report) (visits : List Visit) (view : Db) : Prop where
  known : visits.map Visit.replica = knownReplicas db n
  passed : Passed db visits view
  recorded : Recorded db n before log visits
  sound : ∀ v ∈ visits, v.Sound

/-- A reconciliation that comes to its end has visited each known replica once. It is cut short by a `COPYING`
replica whose bytes are right. -/
theorem wp_reconcileNode {ρ : Type} {A : ∀ β : Type, Request β → β → Prop} {rf : ℕ} (hrf : 1 ≤ rf) {db : Db}
    (hids : (db.replicas.map Replica.replicaId).Nodup) {node : StorageNode} {n : String} (hn : db.node? n = some node)
    (hs : node.status = .recovering) {p : Point Db (ρ × List Report) Note} (hview : p.session.view = db) :
    wp (logged A) (Post.seq (fun result q => ∃ visits acc, Surveyed db n p.world.2 q.world.2 visits q.session.view ∧
      Tally visits acc ∧ result = acc.close ∧ .note (.reconciled n result.complete) ∈ q.past)
      fun _ q => Cut db n p.world.2 q.world.2 [] (knownReplicas db n) q.session.view) (reconcileNode rf n) p := by
  have hid : node.nodeId = n := Table.lookup_key hn
  subst hview
  have hailing : Ailing p.session.view node.nodeId := ⟨node, hid ▸ hn, by rw [hs]; decide⟩
  refine wp_bind.mpr (wp_query.mpr (wp_bind.mpr (wp_demand.mpr ⟨fun node' hn' => ?_, fun hnone => ?_⟩)))
  swap
  · cases hn.symm.trans hnone
  cases hn.symm.trans hn'
  refine wp_bind.mpr (wp_require.mpr ⟨fun _ => ?_, fun hno => absurd hs hno⟩)
  have hnodup := nodup_knownReplicas hids n
  refine wp_bind.mpr (wp_mono ?_ (wp_reconcileReplicas (p := p.look) hrf hids hailing
    (fun r hr => hid ▸ hr) (by simpa using hnodup) (Passed.start _) (Recorded.start _ _ _) (Tally.start n) (by simp)))
  intro x q hx
  cases x with
  | error e => exact hid ▸ hx
  | ok acc =>
    obtain ⟨visits, hmap, hpassed, hrecorded, htally, hsound⟩ := hx
    have hsurveyed : Surveyed p.session.view n p.world.2 q.world.2 visits q.session.view :=
      ⟨by simpa using hmap, hpassed, hid ▸ hrecorded, hsound⟩
    refine wp_bind.mpr (wp_remark.mpr (wp_pure.mpr ⟨visits, acc, hsurveyed, htally, rfl, ?_⟩))
    exact List.mem_append_right _ (List.mem_singleton.mpr rfl)

end Vault.Recovery
