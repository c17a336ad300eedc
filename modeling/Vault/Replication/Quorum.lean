import Vault.Replication.Endings

/-! Quorum commit. The answers of the nodes are a vector of attempts, one for each node, and the result of
`replicate_version` is read off it: it returns only with a committed version and a quorum of replicas that
their nodes have vouched for, and when it raises nothing is committed and no row is left half-way. -/

namespace Vault.Replication

open Vault.Common Vault.Metadata Vault.Storage Vault.Lib Vault.Lib.Script Vault.Lib.Transaction Vault.Placement

/-- How the calls of one writer are answered. -/
structure Attempt where
  connect : Except Failure Unit := .ok ()
  put : Except Failure Unit := .ok ()
  verify : Except Failure Blob
  close : Except Failure Unit := .ok ()

abbrev Clock := ℕ → Time

def serveAttempts (attempt : String → Attempt) : ∀ {β : Type}, Call β → Clock → β × Clock
  | _, .connect n, w => ((attempt n).connect, w)
  | _, .put n _ _, w => ((attempt n).put, w)
  | _, .verify n _, w => ((attempt n).verify, w)
  | _, .close n, w => ((attempt n).close, w)
  | _, .now, w => (w 0, fun k => w (k + 1))

def AnswersAs (attempt : String → Attempt) : ∀ {β : Type}, Call β → Clock → β → Clock → Prop
  | _, .connect n, _, b, _ => b = (attempt n).connect
  | _, .put n _ _, _, b, _ => b = (attempt n).put
  | _, .verify n _, _, b, _ => b = (attempt n).verify
  | _, .close n, _, b, _ => b = (attempt n).close
  | _, .now, _, _, _ => True

lemma serveAttempts_answers (attempt : String → Attempt) {β : Type} (q : Call β) (w : Clock) :
    AnswersAs attempt q w (serveAttempts attempt q w).1 (serveAttempts attempt q w).2 := by
  cases q <;> trivial

def Attempt.measured (v : Version) (a : Attempt) : Except Failure Blob :=
  (putResult a.put).bind fun _ => measuredFor v a.verify

/-- What the writer reports. -/
def Attempt.result (v : Version) (nodeId : String) (a : Attempt) : Except Failure ReplicaWriteResult :=
  a.connect.bind fun _ => a.close.bind fun _ => reported nodeId (a.measured v)

lemma tells_attempts (attempt : String → Attempt) (v : Version) (payload : Payload) :
    Tells (AnswersAs attempt) v payload fun n x _ => x = (attempt n).result v n where
  written node p := by
    refine wp_writeOne (R := fun x _ => x = (attempt node.nodeId).result v node.nodeId) ?_ ?_
    · intro e w hconnect
      rw [Attempt.result, ← (hconnect : Except.error e = (attempt node.nodeId).connect)]
      rfl
    · intro w₁ hconnect a w₂ ha
      have hopen : (attempt node.nodeId).connect = .ok () := Eq.symm hconnect
      have hput : a = (attempt node.nodeId).put := ha
      refine ⟨fun e he c w hc => ?_, fun he m w₃ hm c w hc => ?_⟩
      · have hmeasured : (attempt node.nodeId).measured v = .error e := by
          rw [Attempt.measured, ← hput, he]
          rfl
        rw [Attempt.result, hopen, hmeasured, ← (hc : c = (attempt node.nodeId).close)]
        rfl
      · have hmeasured : (attempt node.nodeId).measured v = measuredFor v m := by
          rw [Attempt.measured, ← hput, he, ← (hm : m = (attempt node.nodeId).verify)]
          rfl
        rw [Attempt.result, hopen, hmeasured, ← (hc : c = (attempt node.nodeId).close)]
        rfl
  stable _ _ _ _ _ _ _ hx := hx

lemma Attempt.verified {v : Version} {n : String} {a : Attempt} (h : isVerified (a.result v n) = true) :
    ∃ b, a.verify = .ok b ∧ b.Matches v := by
  obtain ⟨connect, put, verify, close⟩ := a
  cases connect with
  | error e => cases h
  | ok _ =>
    cases close with
    | error e => cases h
    | ok _ =>
      cases hm : Attempt.measured v ⟨.ok (), put, verify, .ok ()⟩ with
      | error e =>
        simp only [Attempt.result, Except.bind, hm, reported] at h
        split_ifs at h <;> cases h
      | ok b =>
        cases hp : putResult put with
        | error e => simp [Attempt.measured, hp, Except.bind] at hm
        | ok _ =>
          simp only [Attempt.measured, hp, Except.bind] at hm
          exact ⟨b, measuredFor_ok.mp hm⟩

section Counting

variable {v : Version} {pairs : List Pair} {rows : List Replica}

lemma healthyIds_eq (h : ∀ pair ∈ pairs, Faithful v pair.1.nodeId pair.2) :
    healthyIds pairs = (pairs.filter fun pair => isVerified pair.2).map fun pair => pair.1.nodeId := by
  rw [healthyIds, List.filter_map, List.map_map]
  refine (List.map_congr_left fun pair hp => ?_).trans (congrArg (List.map _) ?_)
  · exact resultOf_nodeId (h pair (List.mem_of_mem_filter hp))
  · exact List.filter_congr fun pair _ => resultOf_verified

lemma failedIds_eq (h : ∀ pair ∈ pairs, Faithful v pair.1.nodeId pair.2) :
    failedIds pairs = (pairs.filter fun pair => !isVerified pair.2).map fun pair => pair.1.nodeId := by
  rw [failedIds, List.filter_map, List.map_map]
  refine (List.map_congr_left fun pair hp => ?_).trans (congrArg (List.map _) ?_)
  · exact resultOf_nodeId (h pair (List.mem_of_mem_filter hp))
  · exact List.filter_congr fun pair _ => congrArg Bool.not resultOf_verified

lemma length_healthy (h : List.Forall₂ (SettledAs v) pairs rows) :
    (rows.filter fun r => r.status = .healthy).length = (pairs.filter fun pair => isVerified pair.2).length := by
  induction h with
  | nil => rfl
  | @cons pair row pairs rows hrow _ ih =>
    have hstatus : decide (row.status = .healthy) = isVerified pair.2 := by
      rw [hrow.status]
      cases isVerified pair.2 <;> rfl
    rw [List.filter_cons, List.filter_cons, hstatus]
    cases isVerified pair.2 with
    | false => exact ih
    | true => exact congrArg Nat.succ ih

end Counting

/-- The version is committed and current, and a quorum of its replicas stands on nodes that vouched for it. -/
structure QuorumReached (attempt : String → Attempt) (v : Version) (factor quorum : ℕ)
    (result : ReplicationResult) (view : Db) : Prop where
  committed : ∃ w, view.version? v.versionId = some w ∧ w.state = .committed
  current : ∃ o, view.object? v.objectId = some o ∧ o.currentVersionId = some v.versionId
  enough : quorum ≤ (view.replicas.filter fun r => r.versionId = v.versionId ∧ r.status = .healthy).length
  vouched : ∀ r ∈ view.replicas, r.versionId = v.versionId → r.status = .healthy →
    ∃ b, (attempt r.nodeId).verify = .ok b ∧ b.Matches v
  rows : ∀ r ∈ view.replicas, r.versionId = v.versionId → r.nodeId ∈ result.selectedNodeIds ∧
    (r.status = .healthy ∧ r.nodeId ∈ result.healthyNodeIds ∨ r.status = .failed ∧ r.nodeId ∈ result.failedNodeIds)
  placed : ∀ n ∈ result.selectedNodeIds, ∃ r ∈ view.replicas, r.versionId = v.versionId ∧ r.nodeId = n
  distinct : result.selectedNodeIds.Nodup ∧ result.selectedNodeIds.length = factor
  partitioned : (result.healthyNodeIds ++ result.failedNodeIds).Perm result.selectedNodeIds

/-- Nothing is committed, and no row is left half-way. -/
structure LeftUncommitted (v : Version) (db view : Db) : Prop where
  version : ∃ w, view.version? v.versionId = some w ∧ w.state ≠ .committed
  current : view.objects = db.objects
  rows : ∀ r ∈ view.replicas, r.versionId = v.versionId → r.status ≠ .pending ∧ r.status ≠ .copying

section Endings

variable {v : Version} {nodes : List StorageNode} {Told : String → Except Failure ReplicaWriteResult → Prop}
  {db : Db} {pairs : List Pair} {rows : List Replica}

lemma Settled.row (h : Settled v nodes Told db pairs rows) {r : Replica} (hr : r ∈ rows) :
    ∃ pair ∈ pairs, SettledAs v pair r := by
  have hforall := h.settled
  clear h
  induction hforall with
  | nil => cases hr
  | @cons pair row pairs rows hrow _ ih =>
    rcases List.mem_cons.mp hr with rfl | hr
    · exact ⟨pair, List.mem_cons_self, hrow⟩
    · obtain ⟨pair', hp, hs⟩ := ih hr
      exact ⟨pair', List.mem_cons_of_mem _ hp, hs⟩

lemma Settled.pair (h : Settled v nodes Told db pairs rows) {pair : Pair} (hp : pair ∈ pairs) :
    ∃ r ∈ rows, SettledAs v pair r := by
  have hforall := h.settled
  clear h
  induction hforall with
  | nil => cases hp
  | @cons pair' row pairs rows hrow _ ih =>
    rcases List.mem_cons.mp hp with rfl | hp
    · exact ⟨row, List.mem_cons_self, hrow⟩
    · obtain ⟨r, hr, hs⟩ := ih hp
      exact ⟨r, List.mem_cons_of_mem _ hr, hs⟩

lemma Settled.nodeIds (h : Settled v nodes Told db pairs rows) :
    (pairs.map fun pair => pair.1.nodeId) = nodes.map StorageNode.nodeId := by
  have hmap := congrArg (List.map Replica.nodeId) h.made
  rw [map_nodeId_newRows, List.map_map] at hmap
  exact hmap

lemma Settled.versionId (h : Settled v nodes Told db pairs rows) {r : Replica} (hr : r ∈ rows) :
    r.versionId = v.versionId := by
  obtain ⟨pair, hp, hs⟩ := h.row hr
  have hmem : pair.1 ∈ newRows v.versionId db.nextId (nodes.map StorageNode.nodeId) :=
    h.made ▸ List.mem_map_of_mem hp
  rw [hs.identity.2.1, (mem_newRows hmem).2.1]

lemma Settled.status (h : Settled v nodes Told db pairs rows) {r : Replica} (hr : r ∈ rows) :
    r.status ≠ .pending ∧ r.status ≠ .copying := by
  obtain ⟨pair, -, hs⟩ := h.row hr
  rw [hs.status]
  cases isVerified pair.2 <;> decide

/-- The rows of the version are the new ones. -/
lemma mem_withRows (hno : ∀ r ∈ db.replicas, r.versionId ≠ v.versionId) {r : Replica}
    (hr : r ∈ (withRows db rows).replicas) (hv : r.versionId = v.versionId) : r ∈ rows :=
  (List.mem_append.mp hr).resolve_left fun hold => hno r hold hv

lemma uncommitted_refl (hno : ∀ r ∈ db.replicas, r.versionId ≠ v.versionId) (hv : db.version? v.versionId = some v)
    (hs : v.state = .preparing) : LeftUncommitted v db db where
  version := ⟨v, hv, by rw [hs]; decide⟩
  current := rfl
  rows r hr hver := absurd hver (hno r hr)

lemma Settled.uncommitted (h : Settled v nodes Told db pairs rows)
    (hno : ∀ r ∈ db.replicas, r.versionId ≠ v.versionId) (hv : db.version? v.versionId = some v)
    (hs : v.state = .preparing) : LeftUncommitted v db (withRows db rows) where
  version := ⟨v, hv, by rw [hs]; decide⟩
  current := rfl
  rows _ hr hver := h.status (mem_withRows hno hr hver)

lemma Ended.uncommitted {quorum : ℕ} {expected : Arg (Option ℤ)} {e : Failure} {view : Db}
    (h : Ended v nodes quorum expected Told db (.error e) view)
    (hno : ∀ r ∈ db.replicas, r.versionId ≠ v.versionId) (hv : db.version? v.versionId = some v)
    (hs : v.state = .preparing) : LeftUncommitted v db view := by
  cases h with
  | unplaced => exact uncommitted_refl hno hv hs
  | crashed h e he => exact h.uncommitted hno hv hs
  | missed h he hq =>
    obtain ⟨-, hcurrent, hrows⟩ := h.uncommitted hno hv hs
    refine ⟨⟨v.fail, ?_, VersionState.noConfusion⟩, hcurrent, hrows⟩
    exact Table.lookup_amend_self (f := Version.fail) (fun _ => rfl) hv
  | refused h he hq now e hc => exact h.uncommitted hno hv hs

lemma Ended.reached {attempt : String → Attempt} {factor quorum : ℕ} {expected : Arg (Option ℤ)}
    {result : ReplicationResult} {view : Db}
    (h : Ended v nodes quorum expected (fun n x => x = (attempt n).result v n) db (.ok result) view)
    (hno : ∀ r ∈ db.replicas, r.versionId ≠ v.versionId) (hv : db.version? v.versionId = some v)
    (hdistinct : (nodes.map StorageNode.nodeId).Nodup) (hlength : nodes.length = factor) :
    QuorumReached attempt v factor quorum result view := by
  cases h with
  | @committed pairs rows h he hq now w view hc =>
    have hfaithful : ∀ pair ∈ pairs, Faithful v pair.1.nodeId pair.2 := fun pair hp => (h.told pair hp).1
    have hhealthy := healthyIds_eq hfaithful
    have hfailed := failedIds_eq hfaithful
    obtain ⟨-, v', obj, -, -, hi, hv', hobj, -, -, -, -, -, rfl⟩ := commitVersion_ok hc
    have hid : v.versionId = v'.versionId := Arg.value.inj hi
    obtain rfl : v = v' := Option.some.inj (hv.symm.trans (hid ▸ hv'))
    have hnew : ∀ r ∈ db.replicas ++ rows, r.versionId = v.versionId → r ∈ rows :=
      fun r hr hver => mem_withRows hno hr hver
    have hsame : (pairs.map fun pair => pair.1.nodeId) = nodes.map StorageNode.nodeId := h.nodeIds
    constructor
    · exact ⟨v.commit now, Table.lookup_amend_self (f := Version.commit now) (fun _ => rfl) hv, rfl⟩
    · exact ⟨obj.serve v.versionId, Table.lookup_amend_self (f := Object.serve v.versionId) (fun _ => rfl) hobj, rfl⟩
    · have hsub : (rows.filter fun r => r.status = .healthy).Sublist
          ((db.replicas ++ rows).filter fun r => r.versionId = v.versionId ∧ r.status = .healthy) := by
        rw [List.filter_append]
        refine List.Sublist.trans ?_ (List.sublist_append_right _ _)
        rw [List.filter_congr fun r hr => ?_]
        simp [h.versionId hr]
      rw [hhealthy, List.length_map, ← length_healthy h.settled] at hq
      exact hq.trans hsub.length_le
    · intro r hr hver hstatus
      obtain ⟨pair, hp, hs⟩ := h.row (hnew r hr hver)
      have htold : pair.2 = (attempt pair.1.nodeId).result v pair.1.nodeId := (h.told pair hp).2
      have hverified : isVerified pair.2 = true := by
        by_contra hx
        rw [hs.status, if_neg hx] at hstatus
        cases hstatus
      rw [hs.identity.2.2]
      exact Attempt.verified (htold ▸ hverified)
    · intro r hr hver
      obtain ⟨pair, hp, hs⟩ := h.row (hnew r hr hver)
      rw [hs.identity.2.2, hs.status]
      refine ⟨hsame ▸ List.mem_map_of_mem hp, ?_⟩
      cases hx : isVerified pair.2 with
      | true =>
        refine Or.inl ⟨rfl, ?_⟩
        rw [hhealthy]
        exact List.mem_map_of_mem (List.mem_filter.mpr ⟨hp, hx⟩)
      | false =>
        refine Or.inr ⟨rfl, ?_⟩
        rw [hfailed]
        exact List.mem_map_of_mem (List.mem_filter.mpr ⟨hp, by simp [hx]⟩)
    · intro n hn
      obtain ⟨pair, hp, rfl⟩ := List.mem_map.mp (hsame.symm ▸ hn)
      obtain ⟨r, hr, hs⟩ := h.pair hp
      exact ⟨r, List.mem_append_right _ hr, h.versionId hr, hs.identity.2.2⟩
    · exact ⟨hdistinct, by rw [List.length_map, hlength]⟩
    · rw [hhealthy, hfailed, ← List.map_append, ← hsame]
      exact (List.filter_append_perm _ pairs).map _

end Endings

/-- Quorum commit, for every vector of outcomes and every point of a session. -/
theorem quorum_commit (attempt : String → Attempt) (policy : ReplicationPolicy) (payloadFactory : Arg Payload)
    (replicationFactor writeQuorum expected : Arg (Option ℤ)) (p : Point Db Clock Empty) (v : Version)
    (hwf : p.session.view.WellFormed) (hnodes : p.session.view.NodeKeys)
    (hv : p.session.view.version? v.versionId = some v) (hs : v.state = .preparing)
    (hno : ∀ r ∈ p.session.view.replicas, r.versionId ≠ v.versionId) :
    (∀ result q, exec (serveAttempts attempt)
        (replicateVersion policy (.value v.versionId) payloadFactory replicationFactor writeQuorum expected) p =
          (.ok result, q) →
        ∃ factor quorum, Asked policy replicationFactor writeQuorum factor quorum ∧
          QuorumReached attempt v factor quorum result q.session.view) ∧
      ∀ e q, exec (serveAttempts attempt)
        (replicateVersion policy (.value v.versionId) payloadFactory replicationFactor writeQuorum expected) p =
          (.error e, q) → LeftUncommitted v p.session.view q.session.view := by
  have hprep : ∀ factor, Prepared v (chosen p.session.view v factor) p.session.view := fun factor =>
    ⟨hv, hs, hwf.replicaIds, hwf.freshReplica, fun n hn => hnodes.stripped n (mem_candidates hn).1⟩
  have hend := wp_sound (serveAttempts_answers attempt)
    (wp_replicateVersion policy payloadFactory replicationFactor writeQuorum expected hprep
      fun payload => tells_attempts attempt v payload)
  refine ⟨fun result q hexec => ?_, fun e q hexec => ?_⟩
  · rw [hexec] at hend
    rcases hend with ⟨⟨e, he⟩, -⟩ | ⟨factor, quorum, hasked, hlength, hended⟩
    · cases he
    · exact ⟨factor, quorum, hasked, hended.reached hno hv (nodup_candidates hnodes.distinct) hlength.symm⟩
  · rw [hexec] at hend
    rcases hend with ⟨-, hview⟩ | ⟨factor, quorum, -, -, hended⟩
    · rw [show q.session.view = p.session.view from hview]
      exact uncommitted_refl hno hv hs
    · exact hended.uncommitted hno hv hs

def preparedVersion : Version := { sampleVersion with state := .preparing }

/-- A first version of an object that has no current one, and two nodes with room for it. -/
def preparedDb : Db :=
  { sampleDb with
    objects := [{ objectId := ⟨0⟩, name := "report" }], versions := [preparedVersion], replicas := [],
    repairJobs := [] }

lemma one_vote_pos : 1 ≤ 1 := le_rfl

lemma one_vote_of_two : 1 ≤ 2 := by decide

def pairPolicy : ReplicationPolicy := ⟨2, 1, 1, one_vote_pos, one_vote_pos, one_vote_of_two, one_vote_of_two⟩

/-- The node `a` vouches for the version, every other node is out of reach. -/
def oneVouches (n : String) : Attempt :=
  if n = "a" then { verify := .ok sampleBlob }
  else { put := .error (.client ⟨.unavailable, "timeout"⟩), verify := .error .illTyped }

lemma preparedDb_wellFormed : preparedDb.WellFormed := ⟨by decide, by decide, by decide, by decide⟩

lemma preparedDb_nodeKeys : preparedDb.NodeKeys := ⟨by decide, by decide⟩

theorem quorum_commit_on_prepared :
    preparedDb.version? ⟨1⟩ = some preparedVersion ∧ preparedDb.WellFormed ∧ preparedDb.NodeKeys ∧
      ∀ result q, exec (serveAttempts oneVouches)
        (replicateVersion pairPolicy (.value ⟨1⟩) (.value [[1, 2]]) (.value none) (.value none) (.value none))
          (Point.start preparedDb fun _ => 0) = (.ok result, q) →
        ∃ factor quorum, Asked pairPolicy (.value none) (.value none) factor quorum ∧
          QuorumReached oneVouches preparedVersion factor quorum result q.session.view :=
  ⟨rfl, preparedDb_wellFormed, preparedDb_nodeKeys,
    (quorum_commit oneVouches pairPolicy (.value [[1, 2]]) (.value none) (.value none) (.value none)
      (Point.start preparedDb fun _ => 0) preparedVersion preparedDb_wellFormed preparedDb_nodeKeys rfl rfl
      (by simp [Point.start, Session.fresh, preparedDb])).1⟩

end Vault.Replication
