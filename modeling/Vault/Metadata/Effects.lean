import Vault.Metadata.Operations

/-! What a call can do to the database: nothing, or one of the changes listed here. -/

namespace Vault.Metadata

open Vault.Common Vault.Lib Vault.Lib.Transaction Vault.Lib.Transaction.Tx Vault.Lib.Program

def CurrentNumber (db : Db) (obj : Object) (current : Option ℕ) : Prop :=
  match obj.currentVersionId with
  | none => current = none
  | some versionId => ∃ v, db.version? versionId = some v ∧ current = some v.versionNumber

@[simp] lemma run_lockObject {objectId : UUID} {db : Db} {r : Object × Db} :
    (lockObject objectId).run db = .ok r ↔ db.object? objectId = some r.1 ∧ r.2 = db := by
  simp [lockObject, and_comm]

@[simp] lemma run_currentVersionNumber {obj : Object} {db : Db} {r : Option ℕ × Db} :
    (currentVersionNumber obj).run db = .ok r ↔ CurrentNumber db obj r.1 ∧ r.2 = db := by
  unfold currentVersionNumber CurrentNumber
  cases obj.currentVersionId with
  | none => simp [Prod.ext_iff]
  | some versionId =>
    simp only [run_bind, run_read, run_demand, run_pure, Prod.ext_iff]
    constructor
    · rintro ⟨_, _, ⟨rfl, rfl⟩, v, _, ⟨hv, rfl⟩, hr, ht⟩
      exact ⟨⟨v, hv, hr⟩, ht⟩
    · rintro ⟨⟨v, hv, hr⟩, ht⟩
      exact ⟨db, db, ⟨rfl, rfl⟩, v, db, ⟨hv, rfl⟩, hr, ht⟩

lemma object?_id {db : Db} {objectId : UUID} {obj : Object} (h : db.object? objectId = some obj) :
    obj.objectId = objectId :=
  Table.lookup_key h

lemma version?_id {db : Db} {versionId : UUID} {v : Version} (h : db.version? versionId = some v) :
    v.versionId = versionId :=
  Table.lookup_key h

lemma replica?_id {db : Db} {replicaId : UUID} {r : Replica} (h : db.replica? replicaId = some r) :
    r.replicaId = replicaId :=
  Table.lookup_key h

lemma bindArg_ok {α : Type} {a : Arg α} {x : α} (h : bindArg a = .ok x) : a = .value x := by
  cases a with
  | value y => cases h; rfl
  | illTyped => cases h

lemma validateTyped_ok {α : Type} {m : String} {a : Arg α} {x : α} (h : validateTyped m a = .ok x) :
    a = .value x := by
  cases a with
  | value y => cases h; rfl
  | illTyped => cases h

lemma validateNodeId_ok {n m : String} (h : validateNodeId (.value n) = .ok m) : m = strip n := by
  simp only [validateNodeId, validateNonEmpty] at h
  split_ifs at h
  cases h
  rfl

lemma createVersion_ok {o : Arg UUID} {s : Arg ℤ} {c : Arg String} {e : Arg (Option ℤ)} {db db' : Db}
    {v : Version} (h : (createVersion o s c e).run db = .ok (v, db')) :
    ∃ obj, o = .value obj.objectId ∧ db.object? obj.objectId = some obj ∧ obj.state = .active ∧
      v.versionId = db.newUuid ∧ v.objectId = obj.objectId ∧ v.state = .preparing ∧
      v.versionNumber = db.maxVersionNumber obj.objectId + 1 ∧ db' = insertVersion v db := by
  simp [createVersion] at h
  obtain ⟨size, -, cs, -, expected, -, i, hi, obj, hobj, hact, current, -, -, rfl, rfl⟩ := h
  obtain rfl := object?_id hobj
  exact ⟨obj, bindArg_ok hi, hobj, hact, rfl, rfl, rfl, rfl, rfl⟩

lemma commitVersion_ok {now : Time} {i : Arg UUID} {e : Arg (Option ℤ)} {db db' : Db} {w : Version}
    (h : (commitVersion now i e).run db = .ok (w, db')) :
    ∃ expected v obj current, validateExpectedVersion e = .ok expected ∧ i = .value v.versionId ∧
      db.version? v.versionId = some v ∧ db.object? v.objectId = some obj ∧
      CurrentNumber db obj current ∧ expectedMatches expected current ∧ v.state = .preparing ∧
      (∀ n ∈ current, n < v.versionNumber) ∧ w = v.commit now ∧
      db' = (db.amendVersion v.versionId (Version.commit now)).amendObject v.objectId
        (Object.serve v.versionId) := by
  simp [commitVersion] at h
  obtain ⟨expected, he, i', hi, v, hv, obj, hobj, current, hc, hm, hp, hlt, rfl, rfl⟩ := h
  obtain rfl := version?_id hv
  rw [object?_id hobj]
  exact ⟨expected, v, obj, current, he, bindArg_ok hi, hv, hobj, hc, hm, hp, hlt, rfl, rfl⟩

lemma transitionObjectState_ok {o : Arg UUID} {s : Arg ObjectState} {db db' : Db} {w : Object}
    (h : (transitionObjectState o s).run db = .ok (w, db')) :
    db' = db ∨ ∃ obj state, o = .value obj.objectId ∧ s = .value state ∧
      db.object? obj.objectId = some obj ∧ state ∈ objectStateTransitions obj.state ∧
      db' = db.amendObject obj.objectId (Object.enter state) := by
  simp [transitionObjectState, enterObjectState] at h
  obtain ⟨i, hi, state, hs, obj, hobj, ⟨-, -, rfl⟩ | ⟨-, ht, -, rfl⟩⟩ := h
  · exact Or.inl rfl
  · obtain rfl := object?_id hobj
    exact Or.inr ⟨obj, state, validateTyped_ok hi, validateTyped_ok hs, hobj, ht, rfl⟩

lemma failVersion_ok {i : Arg UUID} {db db' : Db} {w : Version}
    (h : (failVersion i).run db = .ok (w, db')) :
    ∃ v, i = .value v.versionId ∧ db.version? v.versionId = some v ∧ v.state ≠ .committed ∧
      db' = db.amendVersion v.versionId Version.fail := by
  simp [failVersion] at h
  obtain ⟨i', hi, v, hv, hs, -, rfl⟩ := h
  obtain rfl := version?_id hv
  exact ⟨v, validateTyped_ok hi, hv, hs, rfl⟩

lemma createReplica_ok {v : Arg UUID} {n : Arg String} {db db' : Db} {r : Replica}
    (h : (createReplica v n).run db = .ok (r, db')) :
    ∃ versionId nodeId, v = .value versionId ∧ validateNodeId n = .ok nodeId ∧
      db.replicaOn? versionId nodeId = none ∧ (∃ w, db.version? versionId = some w) ∧
      r = { replicaId := db.newUuid, versionId := versionId, nodeId := nodeId } ∧
      db' = insertReplica versionId nodeId db := by
  simp [createReplica] at h
  obtain ⟨nodeId, hn, versionId, hv, hver, -, hfree, rfl, rfl⟩ := h
  exact ⟨versionId, nodeId, bindArg_ok hv, hn, hfree, Option.isSome_iff_exists.mp hver, rfl, rfl⟩

lemma insertReplicas_ok {versionId : UUID} {nodeIds : List String} {db db' : Db} {rs : List Replica}
    (h : (insertReplicas versionId nodeIds).run db = .ok (rs, db')) :
    db' = nodeIds.foldl (fun db n => insertReplica versionId n db) db := by
  induction nodeIds generalizing db rs with
  | nil =>
    simp only [insertReplicas, run_pure, Prod.mk.injEq] at h
    exact h.2
  | cons n ns ih =>
    simp [insertReplicas] at h
    obtain ⟨rs', hr, -⟩ := h
    exact ih hr

lemma createReplicas_ok {v : Arg UUID} {ns : List (Arg String)} {db db' : Db} {rs : List Replica}
    (h : (createReplicas v ns).run db = .ok (rs, db')) :
    ∃ versionId, ∃ nodeIds : List String, v = .value versionId ∧ nodeIds.Nodup ∧
      (∀ n ∈ nodeIds, db.replicaOn? versionId n = none) ∧
      db' = nodeIds.foldl (fun db n => insertReplica versionId n db) db := by
  simp [createReplicas] at h
  obtain ⟨versionId, hv, -, nodeIds, -, hnd, -, -, hfree, hr⟩ := h
  exact ⟨versionId, nodeIds, validateTyped_ok hv, hnd, hfree, insertReplicas_ok hr⟩

lemma checkEdges_ok {state : ReplicaState} {rs : List Replica} (h : checkEdges state rs = .ok ()) :
    ∀ r ∈ rs, r.status = state ∨ state ∈ replicaStateTransitions r.status := by
  induction rs with
  | nil => simp
  | cons r rs ih =>
    simp only [checkEdges] at h
    split_ifs at h with he
    simpa using ⟨he, ih h⟩

lemma setReplicaStates_ok {is : List (Arg UUID)} {s : Arg ReplicaState} {db db' : Db}
    {rs : List Replica} (h : (setReplicaStates is s).run db = .ok (rs, db')) :
    db' = db ∨ ∃ ids state, s = .value state ∧ state ≠ .healthy ∧
      (∀ r ∈ db.replicas, r.replicaId ∈ ids →
        r.status = state ∨ state ∈ replicaStateTransitions r.status) ∧
      db' = setStatuses ids state db := by
  simp [setReplicaStates] at h
  obtain ⟨state, hs, ⟨-, -, rfl⟩ | ⟨-, ids, -, hne, -, ⟨_, hedges⟩, -, rfl⟩⟩ := h
  · exact Or.inl rfl
  · refine Or.inr ⟨ids, state, validateTyped_ok hs, hne, ?_, rfl⟩
    intro r hr hi
    exact checkEdges_ok hedges r (by simpa using ⟨hr, hi⟩)

lemma setReplicaState_ok {i : Arg UUID} {s : Arg ReplicaState} {db db' : Db} {w : Replica}
    (h : (setReplicaState i s).run db = .ok (w, db')) :
    db' = db ∨ ∃ r state, i = .value r.replicaId ∧ s = .value state ∧ state ≠ .healthy ∧
      db.replica? r.replicaId = some r ∧ state ∈ replicaStateTransitions r.status ∧
      db' = db.amendReplica r.replicaId (Replica.enter state) := by
  simp [setReplicaState] at h
  obtain ⟨state, hs, i', hi, r, hr, ⟨-, -, rfl⟩ | ⟨-, ht, hne, -, rfl⟩⟩ := h
  · exact Or.inl rfl
  · obtain rfl := replica?_id hr
    exact Or.inr ⟨r, state, bindArg_ok hi, validateTyped_ok hs, hne, hr, ht, rfl⟩

lemma setReplicaState_row {i : UUID} {state : ReplicaState} {db db' : Db} {w : Replica}
    (h : (setReplicaState (.value i) (.value state)).run db = .ok (w, db')) :
    ∃ r, db.replica? i = some r ∧ w = r.enter state ∧
      (r.status = state ∧ db' = db ∨ db' = db.amendReplica i (Replica.enter state)) := by
  simp [setReplicaState, validateTyped, bindArg] at h
  obtain ⟨r, hr, ⟨hs, rfl, rfl⟩ | ⟨-, -, -, rfl, rfl⟩⟩ := h
  · exact ⟨w, hr, hs ▸ rfl, Or.inl ⟨hs, rfl⟩⟩
  · exact ⟨r, hr, rfl, Or.inr rfl⟩

lemma setReplicaState_along {r : Replica} {state : ReplicaState} {db : Db}
    (hr : db.replica? r.replicaId = some r) (hne : r.status ≠ state)
    (hmem : state ∈ replicaStateTransitions r.status) :
    (setReplicaState (.value r.replicaId) (.value state)).run db =
      .ok (r.enter state, db.amendReplica r.replicaId (Replica.enter state)) := by
  have hh : state ≠ .healthy := fun he => healthy_not_mem_replicaStateTransitions _ (he ▸ hmem)
  simp [setReplicaState, validateTyped, bindArg, hr, hne, hmem, hh]

lemma Db.amendReplica_amendReplica {db : Db} {i : UUID} {f g : Replica → Replica}
    (hf : ∀ r, (f r).replicaId = r.replicaId) :
    (db.amendReplica i f).amendReplica i g = db.amendReplica i (g ∘ f) := by
  simp only [Db.amendReplica, Table.amend_amend hf]

lemma recordVerified_along {r : Replica} {v : Version} {db : Db} (now : Time) (hr : db.replica? r.replicaId = some r)
    (hv : db.version? r.versionId = some v) (hs : r.status = .healthy) :
    (recordVerified now r.replicaId v.checksum v.sizeBytes).run db =
      .ok (r.verify now v.checksum v.sizeBytes,
        db.amendReplica r.replicaId (Replica.verify now v.checksum v.sizeBytes)) := by
  simp [recordVerified, hr, hv, hs]

lemma markVerified_along {r : Replica} {v : Version} {db : Db} (now : Time) (hr : db.replica? r.replicaId = some r)
    (hv : db.version? r.versionId = some v) (hs : r.status = .copying ∨ r.status = .repairing) :
    (markVerified Replica.status now r.replicaId v.checksum v.sizeBytes).run db =
      .ok ((r.enter .healthy).verify now v.checksum v.sizeBytes,
        db.amendReplica r.replicaId (fun r => (r.enter .healthy).verify now v.checksum v.sizeBytes)) := by
  simp [markVerified, hr, hv, hs]

lemma recordVerified_ok {now : Time} {i : UUID} {c : Checksum} {z : ℕ} {db db' : Db} {w : Replica}
    (h : (recordVerified now i c z).run db = .ok (w, db')) :
    ∃ r v, i = r.replicaId ∧ db.replica? r.replicaId = some r ∧ db.version? r.versionId = some v ∧
      c = v.checksum ∧ z = v.sizeBytes ∧ r.status = .healthy ∧
      db' = db.amendReplica r.replicaId (Replica.verify now v.checksum v.sizeBytes) := by
  simp [recordVerified] at h
  obtain ⟨r, hr, v, hv, hs, rfl, rfl, -, rfl⟩ := h
  obtain rfl := replica?_id hr
  exact ⟨r, v, rfl, hr, hv, rfl, rfl, hs, rfl⟩

lemma recordReplicaVerification_ok {now : Time} {i : Arg UUID} {c : Arg String} {z : Arg ℤ}
    {db db' : Db} {w : Replica} (h : (recordReplicaVerification now i c z).run db = .ok (w, db')) :
    ∃ r v, i = .value r.replicaId ∧ db.replica? r.replicaId = some r ∧
      db.version? r.versionId = some v ∧ r.status = .healthy ∧
      db' = db.amendReplica r.replicaId (Replica.verify now v.checksum v.sizeBytes) := by
  simp only [recordReplicaVerification, run_bind, run_check] at h
  obtain ⟨c', _, ⟨-, rfl⟩, z', _, ⟨-, rfl⟩, i', _, ⟨hi, rfl⟩, h⟩ := h
  obtain ⟨r, v, hr', hr, hv, -, -, hs, rfl⟩ := recordVerified_ok h
  exact ⟨r, v, hr' ▸ bindArg_ok hi, hr, hv, hs, rfl⟩

lemma markVerified_ok {seen : Replica → ReplicaState} {now : Time} {i : UUID} {c : Checksum} {z : ℕ}
    {db db' : Db} {w : Replica} (h : (markVerified seen now i c z).run db = .ok (w, db')) :
    ∃ r v, i = r.replicaId ∧ db.replica? r.replicaId = some r ∧ db.version? r.versionId = some v ∧
      c = v.checksum ∧ z = v.sizeBytes ∧ (seen r = .copying ∨ seen r = .repairing) ∧
      db' = db.amendReplica r.replicaId
        (fun r => (r.enter .healthy).verify now v.checksum v.sizeBytes) := by
  simp [markVerified] at h
  obtain ⟨r, hr, v, hv, rfl, rfl, hs, -, rfl⟩ := h
  obtain rfl := replica?_id hr
  exact ⟨r, v, rfl, hr, hv, rfl, rfl, hs, rfl⟩

lemma markReplicaHealthy_ok {now : Time} {i : Arg UUID} {c : Arg String} {z : Arg ℤ}
    {db db' : Db} {w : Replica} (h : (markReplicaHealthy now i c z).run db = .ok (w, db')) :
    ∃ r v, i = .value r.replicaId ∧ db.replica? r.replicaId = some r ∧
      db.version? r.versionId = some v ∧ (r.status = .copying ∨ r.status = .repairing) ∧
      db' = db.amendReplica r.replicaId
        (fun r => (r.enter .healthy).verify now v.checksum v.sizeBytes) := by
  simp only [markReplicaHealthy, run_bind, run_check] at h
  obtain ⟨c', _, ⟨-, rfl⟩, z', _, ⟨-, rfl⟩, i', _, ⟨hi, rfl⟩, h⟩ := h
  obtain ⟨r, v, hr', hr, hv, -, -, hs, rfl⟩ := markVerified_ok h
  exact ⟨r, v, hr' ▸ bindArg_ok hi, hr, hv, hs, rfl⟩

lemma removeReplica_ok {i : Arg UUID} {db db' : Db} {w : Replica}
    (h : (removeReplica i).run db = .ok (w, db')) :
    ∃ r, i = .value r.replicaId ∧ db.replica? r.replicaId = some r ∧
      r.status ∈ [ReplicaState.healthy, .corrupted, .stale, .unavailable] ∧
      db' = deleteReplica r.replicaId db := by
  simp only [removeReplica, run_bind, run_check, run_read, run_demand, run_require, run_write,
    run_pure, Prod.mk.injEq] at h
  obtain ⟨i', _, ⟨hi, rfl⟩, _, _, ⟨rfl, rfl⟩, r, _, ⟨hr, rfl⟩, _, _, ⟨hs, -, rfl⟩, _, _, ⟨-, rfl⟩,
    -, rfl⟩ := h
  obtain rfl := replica?_id hr
  exact ⟨r, validateTyped_ok hi, hr, hs, rfl⟩

def OnlyNodes (db db' : Db) : Prop :=
  ∃ nodes k, db.nextId ≤ k ∧ db' = { db with nodes := nodes, nextId := k }

lemma OnlyNodes.refl (db : Db) : OnlyNodes db db := ⟨db.nodes, db.nextId, le_rfl, rfl⟩

lemma OnlyNodes.trans {a b c : Db} (h : OnlyNodes a b) (h' : OnlyNodes b c) : OnlyNodes a c := by
  obtain ⟨ns, k, hk, rfl⟩ := h
  obtain ⟨ns', k', hk', rfl⟩ := h'
  exact ⟨ns', k', hk.trans hk', rfl⟩

lemma OnlyNodes.amend (db : Db) (n : String) (f : StorageNode → StorageNode) :
    OnlyNodes db (db.amendNode n f) :=
  ⟨_, db.nextId, le_rfl, rfl⟩

lemma transitionNodeState_ok {n : Arg String} {s : Arg NodeState} {db db' : Db} {w : StorageNode}
    (h : (transitionNodeState n s).run db = .ok (w, db')) :
    ∃ node state, validateNodeId n = .ok node.nodeId ∧ s = .value state ∧
      db.node? node.nodeId = some node ∧
      (state = node.status ∧ w = node ∧ db' = db ∨
        state ∈ nodeStateTransitions node.status ∧ w = node.enter state ∧
          db' = db.amendNode node.nodeId (StorageNode.enter state)) := by
  simp [transitionNodeState] at h
  obtain ⟨i, hi, state, hs, node, hn, h⟩ := h
  obtain rfl : node.nodeId = i := Table.lookup_key hn
  refine ⟨node, state, hi, validateTyped_ok hs, hn, ?_⟩
  rcases h with ⟨he, rfl, rfl⟩ | ⟨-, ht, rfl, rfl⟩
  · exact Or.inl ⟨he, rfl, rfl⟩
  · exact Or.inr ⟨ht, rfl, rfl⟩

lemma transitionNodeState_onlyNodes {n : Arg String} {s : Arg NodeState} {db db' : Db}
    {w : StorageNode} (h : (transitionNodeState n s).run db = .ok (w, db')) : OnlyNodes db db' := by
  obtain ⟨node, state, -, -, -, ⟨-, -, rfl⟩ | ⟨-, -, rfl⟩⟩ := transitionNodeState_ok h
  · exact .refl _
  · exact .amend _ _ _

lemma processNodeHeartbeat_onlyNodes {n : Arg String} {c u : Arg (Option ℤ)} {t : Arg Time}
    {db db' : Db} {w : StorageNode × Bool} (h : (processNodeHeartbeat n c u t).run db = .ok (w, db')) :
    OnlyNodes db db' := by
  simp [processNodeHeartbeat] at h
  obtain ⟨i, -, cap, -, used, -, time, -, node, -, -, ⟨-, -, rfl⟩ | ⟨-, -, -, rfl⟩⟩ := h
  · exact .refl _
  · exact .amend _ _ _

lemma registerNode_onlyNodes {n : Arg (Option String)} {a : Arg String} {c : Arg ℤ}
    {s : Arg NodeState} {db db' : Db} {w : StorageNode}
    (h : (registerNode n a c s).run db = .ok (w, db')) : OnlyNodes db db' := by
  simp [registerNode] at h
  obtain ⟨-, address, -, capacity, -, status, -, h⟩ := h
  split at h
  · simp at h
    obtain ⟨i, -, ⟨-, rfl⟩, -⟩ := h
    exact .refl _
  · simp at h
    obtain ⟨i, -, -, -, -, rfl⟩ := h
    exact ⟨_, _, Nat.le_succ _, rfl⟩

lemma updateNodeHeartbeat_onlyNodes (now : Time) (n : Arg String) (c u : Arg (Option ℤ))
    (s : Arg (Option NodeState)) (t : Arg (Option Time)) :
    Prog.Relates OnlyNodes (updateNodeHeartbeat now n c u s t) := by
  apply Prog.relates_bind (R := OnlyNodes) (fun _ _ _ => OnlyNodes.trans)
  · exact Prog.relates_ofTx .refl (fun _ _ _ h => processNodeHeartbeat_onlyNodes h)
  · rintro ⟨node, accepted⟩
    dsimp only
    split
    · exact Prog.relates_pure .refl node
    · exact Prog.relates_raise .refl _
    · split_ifs
      · exact Prog.relates_ofTx .refl (fun _ _ _ h => transitionNodeState_onlyNodes h)
      · exact Prog.relates_pure .refl node

inductive Changed (db : Db) : Op → Db → Prop
  | createObject {name : Arg String} {normalized : String} :
      (∀ o ∈ db.objects, o.name ≠ normalized) →
      Changed db (.createObject name) (insertObject { objectId := db.newUuid, name := normalized } db)
  | createVersion {s c e} {obj : Object} {v : Version} : db.object? obj.objectId = some obj →
      obj.state = .active → v.versionId = db.newUuid → v.objectId = obj.objectId →
      v.state = .preparing → v.versionNumber = db.maxVersionNumber obj.objectId + 1 →
      Changed db (.createVersion (.value obj.objectId) s c e) (insertVersion v db)
  | commitVersion {now e} {v : Version} {obj : Object} {expected current : Option ℕ} :
      validateExpectedVersion e = .ok expected → db.version? v.versionId = some v →
      db.object? v.objectId = some obj → CurrentNumber db obj current →
      expectedMatches expected current → v.state = .preparing → (∀ n ∈ current, n < v.versionNumber) →
      Changed db (.commitVersion now (.value v.versionId) e)
        ((db.amendVersion v.versionId (Version.commit now)).amendObject v.objectId
          (Object.serve v.versionId))
  | transitionObjectState {obj : Object} {state : ObjectState} : db.object? obj.objectId = some obj →
      state ∈ objectStateTransitions obj.state →
      Changed db (.transitionObjectState (.value obj.objectId) (.value state))
        (db.amendObject obj.objectId (Object.enter state))
  | failVersion {v : Version} : db.version? v.versionId = some v → v.state ≠ .committed →
      Changed db (.failVersion (.value v.versionId)) (db.amendVersion v.versionId Version.fail)
  | createReplica {n : Arg String} {versionId : UUID} {nodeId : String} :
      db.replicaOn? versionId nodeId = none →
      Changed db (.createReplica (.value versionId) n) (insertReplica versionId nodeId db)
  | createReplicas {ns : List (Arg String)} {versionId : UUID} {nodeIds : List String} :
      nodeIds.Nodup → (∀ n ∈ nodeIds, db.replicaOn? versionId n = none) →
      Changed db (.createReplicas (.value versionId) ns)
        (nodeIds.foldl (fun db n => insertReplica versionId n db) db)
  | setReplicaStates {is : List (Arg UUID)} {ids : List UUID} {state : ReplicaState} :
      state ≠ .healthy → (∀ r ∈ db.replicas, r.replicaId ∈ ids →
        r.status = state ∨ state ∈ replicaStateTransitions r.status) →
      Changed db (.setReplicaStates is (.value state)) (setStatuses ids state db)
  | setReplicaState {r : Replica} {state : ReplicaState} : state ≠ .healthy →
      db.replica? r.replicaId = some r → state ∈ replicaStateTransitions r.status →
      Changed db (.setReplicaState (.value r.replicaId) (.value state))
        (db.amendReplica r.replicaId (Replica.enter state))
  | recordReplicaVerification {now c z} {r : Replica} {v : Version} :
      db.replica? r.replicaId = some r → db.version? r.versionId = some v → r.status = .healthy →
      Changed db (.recordReplicaVerification now (.value r.replicaId) c z)
        (db.amendReplica r.replicaId (Replica.verify now v.checksum v.sizeBytes))
  | markReplicaHealthy {now c z} {r : Replica} {v : Version} :
      db.replica? r.replicaId = some r → db.version? r.versionId = some v →
      r.status = .copying ∨ r.status = .repairing →
      Changed db (.markReplicaHealthy now (.value r.replicaId) c z)
        (db.amendReplica r.replicaId (fun r => (r.enter .healthy).verify now v.checksum v.sizeBytes))
  | removeReplica {r : Replica} : db.replica? r.replicaId = some r →
      r.status ∈ [ReplicaState.healthy, .corrupted, .stale, .unavailable] →
      Changed db (.removeReplica (.value r.replicaId)) (deleteReplica r.replicaId db)
  | nodes {op : Op} {db' : Db} : OnlyNodes db db' → Changed db op db'

lemma answer_cases {α : Type} (f : α → Output) (body : Tx α) (db : Db) :
    (∃ e, (answer f body).run db = (.error e, db)) ∨ ∃ a db', body.run db = .ok (a, db') ∧
      (answer f body).run db = (.ok (f a), db') := by
  simp only [answer, Prog.run_bind]
  rcases Prog.ofTx_cases body db with ⟨a, db', hb, he⟩ | ⟨e, -, he⟩
  · rw [he]
    exact Or.inr ⟨a, db', hb, rfl⟩
  · rw [he]
    exact Or.inl ⟨e, rfl⟩

lemma answer_ok {α : Type} {f : α → Output} {body : Tx α} {db db' : Db} {a : α}
    (h : body.run db = .ok (a, db')) : (answer f body).run db = (.ok (f a), db') := by
  simp only [answer, Prog.run_bind, Prog.ofTx_ok h]
  rfl

lemma Changed.refl (db : Db) (op : Op) : Changed db op db := .nodes (.refl db)

lemma answer_change {α : Type} {f : α → Output} {body : Tx α} {db : Db} {op : Op}
    (hop : op.exec = answer f body) (h : ∀ a db', body.run db = .ok (a, db') → Changed db op db') :
    Changed db op (step db op) := by
  simp only [step, Op.event, hop]
  rcases answer_cases f body db with ⟨e, he⟩ | ⟨a, db', hb, he⟩
  · rw [he]
    exact .refl db op
  · rw [he]
    exact h a db' hb

lemma getObject_ok {name : Arg String} {db db' : Db} {o : Option Object}
    (h : (getObject name).run db = .ok (o, db')) : db' = db := by
  simp [getObject] at h
  obtain ⟨normalized, -, rfl, -⟩ := h
  rfl

lemma getObjectOrRaise_ok {name : Arg String} {db db' : Db} {o : Object}
    (h : (getObjectOrRaise name).run db = .ok (o, db')) : db' = db := by
  simp only [getObjectOrRaise, run_bind, run_demand] at h
  obtain ⟨o', db₁, h, -, rfl⟩ := h
  exact getObject_ok h

lemma createObject_ok {name : Arg String} {db db' : Db} {o : Object}
    (h : (createObject name).run db = .ok (o, db')) :
    (∀ p ∈ db.objects, p.name ≠ o.name) ∧ o = { objectId := db.newUuid, name := o.name } ∧
      db' = insertObject o db := by
  simp [createObject] at h
  obtain ⟨normalized, -, hfree, rfl, rfl⟩ := h
  exact ⟨hfree, rfl, rfl⟩

theorem step_changed (db : Db) (op : Op) : Changed db op (step db op) := by
  cases op with
  | getObject name =>
    exact answer_change rfl (fun _ _ h => getObject_ok h ▸ .refl db _)
  | getObjectOrRaise name =>
    exact answer_change rfl (fun _ _ h => getObjectOrRaise_ok h ▸ .refl db _)
  | createObject name =>
    refine answer_change rfl (fun o db' h => ?_)
    obtain ⟨hfree, ho, rfl⟩ := createObject_ok h
    rw [ho]
    exact .createObject hfree
  | createVersion o s c e =>
    refine answer_change rfl (fun v db' h => ?_)
    obtain ⟨obj, rfl, hobj, hact, hid, ho, hs, hn, rfl⟩ := createVersion_ok h
    exact .createVersion hobj hact hid ho hs hn
  | commitVersion now i e =>
    refine answer_change rfl (fun w db' h => ?_)
    obtain ⟨expected, v, obj, current, he, rfl, hv, hobj, hc, hm, hp, hlt, -, rfl⟩ :=
      commitVersion_ok h
    exact .commitVersion he hv hobj hc hm hp hlt
  | transitionObjectState o s =>
    refine answer_change rfl (fun w db' h => ?_)
    rcases transitionObjectState_ok h with rfl | ⟨obj, state, rfl, rfl, hobj, ht, rfl⟩
    · exact .refl _ _
    · exact .transitionObjectState hobj ht
  | failVersion i =>
    refine answer_change rfl (fun w db' h => ?_)
    obtain ⟨v, rfl, hv, hs, rfl⟩ := failVersion_ok h
    exact .failVersion hv hs
  | transitionNodeState n s =>
    exact answer_change rfl (fun _ _ h => .nodes (transitionNodeState_onlyNodes h))
  | createReplicas v ns =>
    refine answer_change rfl (fun rs db' h => ?_)
    obtain ⟨versionId, nodeIds, rfl, hnd, hfree, rfl⟩ := createReplicas_ok h
    exact .createReplicas hnd hfree
  | setReplicaStates is s =>
    refine answer_change rfl (fun rs db' h => ?_)
    rcases setReplicaStates_ok h with rfl | ⟨ids, state, rfl, hne, ht, rfl⟩
    · exact .refl _ _
    · exact .setReplicaStates hne ht
  | createReplica v n =>
    refine answer_change rfl (fun r db' h => ?_)
    obtain ⟨versionId, nodeId, rfl, -, hfree, -, -, rfl⟩ := createReplica_ok h
    exact .createReplica hfree
  | setReplicaState i s =>
    refine answer_change rfl (fun w db' h => ?_)
    rcases setReplicaState_ok h with rfl | ⟨r, state, rfl, rfl, hne, hr, ht, rfl⟩
    · exact .refl _ _
    · exact .setReplicaState hne hr ht
  | recordReplicaVerification now i c z =>
    refine answer_change rfl (fun w db' h => ?_)
    obtain ⟨r, v, rfl, hr, hv, hs, rfl⟩ := recordReplicaVerification_ok h
    exact .recordReplicaVerification hr hv hs
  | markReplicaHealthy now i c z =>
    refine answer_change rfl (fun w db' h => ?_)
    obtain ⟨r, v, rfl, hr, hv, hs, rfl⟩ := markReplicaHealthy_ok h
    exact .markReplicaHealthy hr hv hs
  | removeReplica i =>
    refine answer_change rfl (fun w db' h => ?_)
    obtain ⟨r, rfl, hr, hs, rfl⟩ := removeReplica_ok h
    exact .removeReplica hr hs
  | registerNode n a c s =>
    exact answer_change rfl (fun _ _ h => .nodes (registerNode_onlyNodes h))
  | processNodeHeartbeat n c u t =>
    exact answer_change rfl (fun _ _ h => .nodes (processNodeHeartbeat_onlyNodes h))
  | updateNodeHeartbeat now n c u s t =>
    refine .nodes (Prog.relates_bind (R := OnlyNodes) (fun _ _ _ => OnlyNodes.trans)
      (updateNodeHeartbeat_onlyNodes now n c u s t) (fun node => ?_) db)
    exact Prog.relates_pure .refl _

end Vault.Metadata
