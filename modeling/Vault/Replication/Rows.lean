import Vault.Metadata.WellFormed
import Vault.Replication.Writes

/-! The replica rows of an upload: how they are made and what each outcome of a writer turns its row into. -/

namespace Vault.Replication

open Vault.Common Vault.Metadata Vault.Storage Vault.Lib Vault.Lib.Script Vault.Lib.Transaction
open Vault.Lib.Transaction.Tx

def newRows (versionId : UUID) : ℕ → List String → List Replica
  | _, [] => []
  | k, n :: ns => { replicaId := ⟨k⟩, versionId := versionId, nodeId := n } :: newRows versionId (k + 1) ns

def withRows (db : Db) (rows : List Replica) : Db :=
  { db with replicas := db.replicas ++ rows, nextId := db.nextId + rows.length }

lemma amendReplica_withRows {db : Db} {rows rest : List Replica} {r : Replica} (f : Replica → Replica)
    (h : ((db.replicas ++ (rows ++ r :: rest)).map Replica.replicaId).Nodup) :
    (withRows db (rows ++ r :: rest)).amendReplica r.replicaId f = withRows db (rows ++ f r :: rest) := by
  have hamend : Table.amend Replica.replicaId r.replicaId f (db.replicas ++ (rows ++ r :: rest)) =
      db.replicas ++ (rows ++ f r :: rest) := by
    rw [← List.append_assoc] at h ⊢
    rw [Table.amend_middle h, List.append_assoc]
  simp [withRows, Db.amendReplica, hamend]

section Creation

variable {db : Db} {i : UUID} {k : ℕ} {ns : List String}

@[simp] lemma length_newRows : (newRows i k ns).length = ns.length := by
  induction ns generalizing k with
  | nil => rfl
  | cons n ns ih => simp [newRows, ih]

@[simp] lemma map_nodeId_newRows : (newRows i k ns).map Replica.nodeId = ns := by
  induction ns generalizing k with
  | nil => rfl
  | cons n ns ih => simp [newRows, ih]

lemma mem_newRows {r : Replica} (h : r ∈ newRows i k ns) :
    k ≤ r.replicaId.n ∧ r.versionId = i ∧ r.status = .pending := by
  induction ns generalizing k with
  | nil => cases h
  | cons n ns ih =>
    rcases List.mem_cons.mp h with rfl | h
    · exact ⟨le_rfl, rfl, rfl⟩
    · obtain ⟨hk, hv, hs⟩ := ih h
      exact ⟨(Nat.le_succ k).trans hk, hv, hs⟩

lemma nodup_newRows : ((newRows i k ns).map Replica.replicaId).Nodup := by
  induction ns generalizing k with
  | nil => exact List.nodup_nil
  | cons n ns ih =>
    refine List.nodup_cons.mpr ⟨fun hmem => ?_, ih⟩
    obtain ⟨r, hr, he⟩ := List.mem_map.mp hmem
    have hk := (mem_newRows hr).1
    rw [he] at hk
    exact absurd hk (Nat.not_succ_le_self k)

lemma insertReplicas_run (db : Db) (i : UUID) (ns : List String) :
    (insertReplicas i ns).run db = .ok (newRows i db.nextId ns, withRows db (newRows i db.nextId ns)) := by
  induction ns generalizing db with
  | nil => simp [insertReplicas, newRows, withRows]
  | cons n ns ih =>
    rw [insertReplicas, bind_read, bind_write, run_bind]
    refine ⟨_, _, ih _, ?_⟩
    simp only [run_pure, newRows, insertReplica, withRows, Db.newUuid, Prod.mk.injEq, List.append_assoc,
      List.singleton_append, List.length_cons, true_and]
    congr 1
    omega

lemma validateNodeIds_ok {ns ms : List String} (hns : ∀ n ∈ ns, strip n = n)
    (h : validateNodeIds (ns.map .value) = .ok ms) : ms = ns := by
  induction ns generalizing ms with
  | nil =>
    cases h
    rfl
  | cons n ns ih =>
    have hn := hns n List.mem_cons_self
    simp only [List.map_cons, validateNodeIds, validateNonEmpty, hn, Bind.bind, Except.bind] at h
    split_ifs at h
    cases hrest : validateNodeIds (ns.map .value) with
    | error e => simp [hrest] at h
    | ok rest =>
      simp only [hrest, Pure.pure, Except.pure, Except.ok.injEq] at h
      rw [← h, ih (fun m hm => hns m (List.mem_cons_of_mem _ hm)) hrest]

lemma createReplicas_rows {db' : Db} {rs : List Replica} (hns : ∀ n ∈ ns, strip n = n)
    (h : (createReplicas (.value i) (ns.map .value)).run db = .ok (rs, db')) :
    ns ≠ [] ∧ rs = newRows i db.nextId ns ∧ db' = withRows db rs := by
  simp [createReplicas, validateTyped] at h
  obtain ⟨hne, nodeIds, hnodeIds, -, -, -, -, hrun⟩ := h
  obtain rfl := validateNodeIds_ok hns hnodeIds
  rw [insertReplicas_run] at hrun
  cases hrun
  exact ⟨hne, rfl, rfl⟩

lemma checkEdges_all {state : ReplicaState} {rs : List Replica}
    (h : ∀ r ∈ rs, state ∈ replicaStateTransitions r.status) : checkEdges state rs = .ok () := by
  induction rs with
  | nil => rfl
  | cons r rs ih =>
    rw [checkEdges, if_pos (Or.inr (h r List.mem_cons_self))]
    exact ih fun s hs => h s (List.mem_cons_of_mem _ hs)

lemma bindIds_value (ids : List UUID) : bindIds (ids.map .value) = .ok ids := by
  induction ids with
  | nil => rfl
  | cons j ids ih => simp [bindIds, validateTyped, ih, Bind.bind, Except.bind, Pure.pure, Except.pure]

/-- The rows that were just made may all enter `COPYING`. -/
lemma setReplicaStates_newRows (hfresh : ∀ r ∈ db.replicas, r.replicaId.n < k) (hne : ns ≠ []) :
    ∃ rs, (setReplicaStates ((newRows i k ns).map fun r => .value r.replicaId) (.value .copying)).run
        (withRows db (newRows i k ns)) =
      .ok (rs, withRows db ((newRows i k ns).map (Replica.enter .copying))) := by
  set rows := newRows i k ns with hrows
  set ids := rows.map Replica.replicaId with hids
  have hold : ∀ r ∈ db.replicas, r.replicaId ∉ ids := by
    intro r hr hmem
    obtain ⟨s, hs, he⟩ := List.mem_map.mp hmem
    have hk := (mem_newRows hs).1
    rw [he] at hk
    exact absurd (hfresh r hr) (not_lt.mpr hk)
  have hnew : ∀ r ∈ rows, r.replicaId ∈ ids := fun r hr => List.mem_map_of_mem hr
  have hfound : (withRows db rows).replicas.filter (fun r => r.replicaId ∈ ids) = rows := by
    rw [withRows, List.filter_append, List.filter_eq_nil_iff.mpr (by simpa using hold), List.nil_append,
      List.filter_eq_self.mpr (by simpa using hnew)]
  have hedges : checkEdges .copying rows = .ok () := by
    refine checkEdges_all fun r hr => ?_
    rw [(mem_newRows hr).2.2]
    decide
  have hset : setStatuses ids .copying (withRows db rows) = withRows db (rows.map (Replica.enter .copying)) := by
    have hkept : db.replicas.map (fun r => if r.replicaId ∈ ids then r.enter .copying else r) = db.replicas := by
      rw [List.map_congr_left fun r hr => if_neg (hold r hr), List.map_id']
    have hchanged : rows.map (fun r => if r.replicaId ∈ ids then r.enter .copying else r) =
        rows.map (Replica.enter .copying) := List.map_congr_left fun r hr => if_pos (hnew r hr)
    simp only [setStatuses, withRows, List.map_append, hkept, hchanged, List.length_map]
  have hargs : (rows.map fun r => (.value r.replicaId : Arg UUID)) = ids.map .value := by
    rw [hids, List.map_map]
    rfl
  have hnonempty : ids.map (.value : UUID → Arg UUID) ≠ [] := by
    intro he
    have hlength := congrArg List.length he
    simp [hids, hrows, List.length_eq_zero_iff, hne] at hlength
  refine ⟨rows.map (Replica.enter .copying), ?_⟩
  have hlength : rows.length = ids.dedup.length := by
    rw [List.dedup_eq_self.mpr nodup_newRows]
    exact (List.length_map _).symm
  rw [hargs]
  simp only [setReplicaStates, run_bind, run_check, run_read, run_require, run_write, run_pure, run_ite]
  refine ⟨.copying, _, ⟨rfl, rfl⟩, Or.inr ⟨hnonempty, ids, _, ⟨bindIds_value ids, rfl⟩, (), _, ⟨by decide, rfl⟩,
    _, _, rfl, (), _, ⟨?_, rfl⟩, (), _, ⟨?_, rfl⟩, (), _, rfl, ?_⟩⟩
  · rw [hfound]
    exact hlength
  · rw [hfound]
    exact hedges
  · rw [hset, hfound]

end Creation

def isVerified : Except Failure ReplicaWriteResult → Bool
  | .ok result => result.verified
  | .error _ => false

/-- A replica row with the outcome of its writer. -/
abbrev Pair := Replica × Except Failure ReplicaWriteResult

/-- What a writer may report: its own node, and when the replica is verified the digest of the version. -/
def Faithful (v : Version) (nodeId : String) (x : Except Failure ReplicaWriteResult) : Prop :=
  ∀ result, x = .ok result → result.nodeId = nodeId ∧ (result.verified = true →
    result.checksum = some v.checksum ∧ result.sizeBytes = some v.sizeBytes)

def resultOf (pair : Pair) : ReplicaWriteResult :=
  match pair.2 with
  | .error e => failedWrite pair.1.nodeId e
  | .ok result => result

def settledRow (v : Version) (now : Time) (pair : Pair) : Replica :=
  if isVerified pair.2 then (pair.1.enter .healthy).verify now v.checksum v.sizeBytes
  else pair.1.enter .failed

def SettledAs (v : Version) (pair : Pair) (row : Replica) : Prop := ∃ now, row = settledRow v now pair

section Settling

variable {v : Version} {pair : Pair} {row : Replica} {db : Db}

lemma settledAs_verified (h : isVerified pair.2 = true) (now : Time) :
    SettledAs v pair (((pair.1.enter .copying).enter .healthy).verify now v.checksum v.sizeBytes) :=
  ⟨now, (if_pos h).symm⟩

lemma settledAs_failed (h : isVerified pair.2 = false) :
    SettledAs v pair ((pair.1.enter .copying).enter .failed) :=
  ⟨0, (if_neg (Bool.eq_false_iff.mp h)).symm⟩

lemma SettledAs.identity (h : SettledAs v pair row) :
    row.replicaId = pair.1.replicaId ∧ row.versionId = pair.1.versionId ∧ row.nodeId = pair.1.nodeId := by
  obtain ⟨now, rfl⟩ := h
  unfold settledRow
  split_ifs
  · exact ⟨rfl, rfl, rfl⟩
  · exact ⟨rfl, rfl, rfl⟩

lemma SettledAs.status (h : SettledAs v pair row) :
    row.status = if isVerified pair.2 then .healthy else .failed := by
  obtain ⟨now, rfl⟩ := h
  unfold settledRow
  split_ifs
  · rfl
  · rfl

lemma resultOf_verified : (resultOf pair).verified = isVerified pair.2 := by
  unfold resultOf isVerified
  cases pair.2 with
  | error e => rfl
  | ok result => rfl

lemma resultOf_nodeId (h : Faithful v pair.1.nodeId pair.2) : (resultOf pair).nodeId = pair.1.nodeId := by
  unfold resultOf
  cases hx : pair.2 with
  | error e => rfl
  | ok result => exact (h result hx).1

lemma markVerified_run {now : Time} {r : Replica} (hr : db.replica? r.replicaId = some (r.enter .copying))
    (hv : db.version? r.versionId = some v) :
    (markVerified Replica.status now r.replicaId v.checksum v.sizeBytes).run db =
      .ok ((r.enter .healthy).verify now v.checksum v.sizeBytes, db.amendReplica r.replicaId
        (fun r => (r.enter .healthy).verify now v.checksum v.sizeBytes)) := by
  have hrow : db.replica? (r.enter .copying).replicaId = some (r.enter .copying) := hr
  have hrun := markVerified_along now hrow hv (Or.inl rfl)
  exact hrun

lemma setFailed_run {r : Replica} (hr : db.replica? r.replicaId = some (r.enter .copying)) :
    (setReplicaState (.value r.replicaId) (.value .failed)).run db =
      .ok (r.enter .failed, db.amendReplica r.replicaId (Replica.enter .failed)) := by
  have hne : (r.enter .copying).status ≠ .failed := ReplicaState.noConfusion
  have hmem : .failed ∈ replicaStateTransitions (r.enter .copying).status := List.mem_cons_self
  exact setReplicaState_along (r := r.enter .copying) hr hne hmem

end Settling

end Vault.Replication
