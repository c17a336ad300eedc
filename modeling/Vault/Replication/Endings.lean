import Vault.Replication.Writers

/-! How a replication can end. When the writers are through, every row is `HEALTHY` or `FAILED` by the outcome
of its writer, and then the version is committed, failed, or left as it is. -/

namespace Vault.Replication

open Vault.Common Vault.Metadata Vault.Storage Vault.Lib Vault.Lib.Script Vault.Lib.Transaction

variable {ρ : Type} {answers : ∀ {β : Type}, Call β → ρ → β → ρ → Prop} {v : Version} {payload : Payload}
  {nodes : List StorageNode} {Told : String → Except Failure ReplicaWriteResult → ρ → Prop}

/-- The rows of the version when the outcomes of its writers are in. -/
structure Settled (v : Version) (nodes : List StorageNode)
    (Told : String → Except Failure ReplicaWriteResult → Prop) (db : Db) (pairs : List Pair)
    (rows : List Replica) : Prop where
  made : pairs.map Prod.fst = newRows v.versionId db.nextId (nodes.map StorageNode.nodeId)
  told : ∀ pair ∈ pairs, Faithful v pair.1.nodeId pair.2 ∧ Told pair.1.nodeId pair.2
  settled : List.Forall₂ (SettledAs v) pairs rows

def healthyIds (pairs : List Pair) : List String :=
  ((pairs.map resultOf).filter (fun r => r.verified)).map ReplicaWriteResult.nodeId

def failedIds (pairs : List Pair) : List String :=
  ((pairs.map resultOf).filter (fun r => !r.verified)).map ReplicaWriteResult.nodeId

/-- How a replication that began on `db` can end, and what the session then sees. -/
inductive Ended (v : Version) (nodes : List StorageNode) (quorum : ℕ) (expected : Arg (Option ℤ))
    (Told : String → Except Failure ReplicaWriteResult → Prop) (db : Db) :
    Except Failure ReplicationResult → Db → Prop
  | unplaced (e : Failure) : Ended v nodes quorum expected Told db (.error e) db
  | crashed {pairs rows} (h : Settled v nodes Told db pairs rows) (e : Failure)
      (he : firstError (pairs.map Prod.snd) = some e) :
      Ended v nodes quorum expected Told db (.error e) (withRows db rows)
  | missed {pairs rows} (h : Settled v nodes Told db pairs rows) (he : firstError (pairs.map Prod.snd) = none)
      (hq : (healthyIds pairs).length < quorum) :
      Ended v nodes quorum expected Told db
        (.error (.vault (quorumMissed quorum v.versionId (healthyIds pairs).length)))
        ((withRows db rows).amendVersion v.versionId Version.fail)
  | refused {pairs rows} (h : Settled v nodes Told db pairs rows) (he : firstError (pairs.map Prod.snd) = none)
      (hq : quorum ≤ (healthyIds pairs).length) (now : Time) (e : Failure)
      (hc : (commitVersion now (.value v.versionId) expected).run (withRows db rows) = .error e) :
      Ended v nodes quorum expected Told db (.error e) (withRows db rows)
  | committed {pairs rows} (h : Settled v nodes Told db pairs rows)
      (he : firstError (pairs.map Prod.snd) = none) (hq : quorum ≤ (healthyIds pairs).length) (now : Time)
      (w : Version) (view : Db)
      (hc : (commitVersion now (.value v.versionId) expected).run (withRows db rows) = .ok (w, view)) :
      Ended v nodes quorum expected Told db (.ok
        { versionId := v.versionId, selectedNodeIds := nodes.map StorageNode.nodeId,
          healthyNodeIds := healthyIds pairs, failedNodeIds := failedIds pairs, committed := true }) view

section Settlement

variable {db : Db} {pairs : List Pair}

/-- Some rows are settled, the others are still `COPYING`. -/
structure Settling (v : Version) (db : Db) (done rest : List Pair) (rows : List Replica) (view : Db) : Prop where
  settled : List.Forall₂ (SettledAs v) done rows
  view_eq : view = withRows db (rows ++ rest.map fun pair => pair.1.enter .copying)

lemma map_replicaId_settled {done : List Pair} {rows : List Replica} (h : List.Forall₂ (SettledAs v) done rows) :
    rows.map Replica.replicaId = done.map fun pair => pair.1.replicaId := by
  induction h with
  | nil => rfl
  | cons hrow _ ih => rw [List.map_cons, List.map_cons, hrow.identity.1, ih]

lemma Settling.ids {done rest : List Pair} {rows : List Replica} {view : Db}
    (h : Settling v db done rest rows view)
    (hids : ((db.replicas ++ (done ++ rest).map Prod.fst).map Replica.replicaId).Nodup) :
    ((db.replicas ++ (rows ++ rest.map fun pair => pair.1.enter .copying)).map Replica.replicaId).Nodup := by
  simp only [List.map_append, List.map_map, Function.comp_def, map_replicaId_settled h.settled] at hids ⊢
  exact hids

lemma Settling.replica? {done rest : List Pair} {pair : Pair} {rows : List Replica} {view : Db}
    (h : Settling v db done (pair :: rest) rows view)
    (hids : ((db.replicas ++ (done ++ pair :: rest).map Prod.fst).map Replica.replicaId).Nodup) :
    view.replica? pair.1.replicaId = some (pair.1.enter .copying) := by
  rw [h.view_eq]
  exact Table.lookup_of_mem (r := pair.1.enter .copying) (h.ids hids) (by simp)

lemma Settling.step {done rest : List Pair} {pair : Pair} {rows : List Replica} {view : Db}
    (h : Settling v db done (pair :: rest) rows view)
    (hids : ((db.replicas ++ (done ++ pair :: rest).map Prod.fst).map Replica.replicaId).Nodup)
    {f : Replica → Replica} (hf : SettledAs v pair (f (pair.1.enter .copying))) :
    Settling v db (done ++ [pair]) rest (rows ++ [f (pair.1.enter .copying)])
      (view.amendReplica pair.1.replicaId f) where
  settled := List.rel_append h.settled (.cons hf .nil)
  view_eq := by
    have hamend := amendReplica_withRows f (h.ids hids)
    rw [h.view_eq, List.append_assoc]
    exact hamend

/-- One row is settled. -/
lemma wp_settleReplica {done rest : List Pair} {pair : Pair} {rows : List Replica} {p : Point Db ρ Empty}
    (h : Settling v db done (pair :: rest) rows p.session.view)
    (hids : ((db.replicas ++ (done ++ pair :: rest).map Prod.fst).map Replica.replicaId).Nodup)
    (hv : db.version? pair.1.versionId = some v) (hf : Faithful v pair.1.nodeId pair.2) :
    wp answers (Post.seq (fun result q => result = resultOf pair ∧
        ∃ row, Settling v db (done ++ [pair]) rest (rows ++ [row]) q.session.view) fun _ _ => False)
      (settleReplica pair) p := by
  obtain ⟨r, x⟩ := pair
  have hrow := h.replica? hids
  have hversion : p.session.view.version? r.versionId = some v := by
    rw [h.view_eq]
    exact hv
  cases x with
  | error e =>
    rw [settleReplica, wp_bind]
    refine wp_transaction_ok (setFailed_run hrow) fun s hs => ?_
    rw [Post.seq_ok, wp_pure]
    refine ⟨rfl, (r.enter .copying).enter .failed, ?_⟩
    change Settling v db _ rest _ s.view
    exact hs ▸ h.step hids (f := Replica.enter .failed) (settledAs_failed rfl)
  | ok result =>
    rw [settleReplica]
    split_ifs with hverified
    · obtain ⟨hc, hz⟩ := (hf result rfl).2 hverified
      rw [hc, hz]
      dsimp only
      rw [wp_bind, wp_request]
      intro now w _
      rw [Post.seq_ok, wp_bind]
      refine wp_transaction_ok (markVerified_run hrow hversion) fun s hs => ?_
      rw [Post.seq_ok, wp_pure]
      refine ⟨rfl, ((r.enter .copying).enter .healthy).verify now v.checksum v.sizeBytes, ?_⟩
      change Settling v db _ rest _ s.view
      have hsettled := @settledAs_verified v (r, .ok result) hverified now
      exact hs ▸ h.step hids (f := fun r => (r.enter .healthy).verify now v.checksum v.sizeBytes) hsettled
    · rw [wp_bind]
      refine wp_transaction_ok (setFailed_run hrow) fun s hs => ?_
      rw [Post.seq_ok, wp_pure]
      refine ⟨rfl, (r.enter .copying).enter .failed, ?_⟩
      change Settling v db _ rest _ s.view
      exact hs ▸ h.step hids (f := Replica.enter .failed) (settledAs_failed (Bool.eq_false_iff.mpr hverified))

lemma wp_settleAll {p : Point Db ρ Empty}
    (hview : p.session.view = withRows db (pairs.map fun pair => pair.1.enter .copying))
    (hids : ((db.replicas ++ pairs.map Prod.fst).map Replica.replicaId).Nodup)
    (hv : ∀ pair ∈ pairs, db.version? pair.1.versionId = some v)
    (hf : ∀ pair ∈ pairs, Faithful v pair.1.nodeId pair.2) :
    wp answers (Post.seq (fun results q => results = pairs.map resultOf ∧
        ∃ rows, List.Forall₂ (SettledAs v) pairs rows ∧ q.session.view = withRows db rows) fun _ _ => False)
      (forEach settleReplica pairs) p := by
  let J : List ReplicaWriteResult → List Pair → Point Db ρ Empty → Prop := fun results rest q =>
    ∃ done rows, pairs = done ++ rest ∧ results = done.map resultOf ∧ Settling v db done rest rows q.session.view
  have hstep : ∀ results pair rest q, J results (pair :: rest) q → wp answers
      (Post.seq (fun result => J (results ++ [result]) rest) fun _ _ => False) (settleReplica pair) q := by
    rintro results pair rest q ⟨done, rows, hpairs, rfl, hs⟩
    have hmem : pair ∈ pairs := hpairs ▸ List.mem_append_right _ List.mem_cons_self
    refine wp_mono ?_ (wp_settleReplica hs (hpairs ▸ hids) (hv pair hmem) (hf pair hmem))
    intro r q' hq'
    cases r with
    | error e => exact hq'
    | ok result =>
      obtain ⟨rfl, row, hs'⟩ := hq'
      exact ⟨done ++ [pair], rows ++ [row], by simp [hpairs], by simp, hs'⟩
  have hstart : J [] pairs p := ⟨[], [], rfl, rfl, .nil, hview⟩
  refine wp_mono ?_ (wp_forEach_collect hstep hstart)
  intro r q hq
  cases r with
  | error e => exact hq
  | ok results =>
    obtain ⟨done, rows, hpairs, hresults, hs⟩ := hq
    obtain rfl : pairs = done := hpairs.trans (List.append_nil _)
    refine ⟨hresults, rows, hs.settled, ?_⟩
    rw [hs.view_eq, List.map_nil, List.append_nil]

end Settlement

section Replication

variable {db : Db} {quorum : ℕ} {expected : Arg (Option ℤ)}

/-- What the upload starts from: the rows of the version are still to be made. -/
structure Prepared (v : Version) (nodes : List StorageNode) (db : Db) : Prop where
  version : db.version? v.versionId = some v
  preparing : v.state = .preparing
  replicaIds : (db.replicas.map Replica.replicaId).Nodup
  fresh : ∀ r ∈ db.replicas, r.replicaId.n < db.nextId
  stripped : ∀ n ∈ nodes, strip n.nodeId = n.nodeId

lemma Prepared.ids (h : Prepared v nodes db) (ns : List String) :
    ((db.replicas ++ newRows v.versionId db.nextId ns).map Replica.replicaId).Nodup := by
  rw [List.map_append, List.nodup_append]
  refine ⟨h.replicaIds, nodup_newRows, ?_⟩
  rintro i hi j hj rfl
  obtain ⟨r, hr, rfl⟩ := List.mem_map.mp hi
  obtain ⟨s, hs, he⟩ := List.mem_map.mp hj
  have hk := (mem_newRows hs).1
  rw [he] at hk
  exact absurd (h.fresh r hr) (not_lt.mpr hk)

lemma wp_settleVersion {Told : String → Except Failure ReplicaWriteResult → Prop} {pairs : List Pair}
    {rows : List Replica} {p : Point Db ρ Empty} (hprep : Prepared v nodes db)
    (h : Settled v nodes Told db pairs rows) (he : firstError (pairs.map Prod.snd) = none)
    (hview : p.session.view = withRows db rows) :
    wp answers (fun r q => Ended v nodes quorum expected Told db r q.session.view)
      (settleVersion v.versionId quorum expected nodes (pairs.map resultOf)) p := by
  have hversion : p.session.view.version? v.versionId = some v := by
    rw [hview]
    exact hprep.version
  unfold settleVersion
  dsimp only
  split_ifs with hq
  · have hrun : (failVersion (.value v.versionId)).run p.session.view =
        .ok (v.fail, p.session.view.amendVersion v.versionId Version.fail) := by
      simp [failVersion, validateTyped, hversion, hprep.preparing]
    rw [wp_bind]
    refine wp_transaction_ok hrun fun s hs => ?_
    rw [Post.seq_ok, wp_raise]
    change Ended v nodes quorum expected Told db _ s.view
    rw [hs, hview]
    exact .missed h he hq
  · rw [wp_bind, wp_request]
    intro now w _
    rw [Post.seq_ok, wp_bind]
    refine wp_transaction_view (fun w' s hrun => ?_) fun e s hrun hs => ?_
    · rw [Post.seq_ok, wp_pure]
      exact .committed h he (not_lt.mp hq) now w' s.view (hview ▸ hrun)
    · change Ended v nodes quorum expected Told db (.error e) s.view
      rw [hs]
      change Ended v nodes quorum expected Told db (.error e) p.session.view
      rw [hview]
      exact .refused h he (not_lt.mp hq) now e (hview ▸ hrun)

lemma forall_zip_of_forall₂ {α β γ : Type} {P : β → γ → Prop} {g : α → β} {as : List α} {bs : List β}
    {xs : List γ} (hmap : as.map g = bs) (h : List.Forall₂ P bs xs) : ∀ pair ∈ as.zip xs, P (g pair.1) pair.2 := by
  subst hmap
  rw [List.forall₂_map_left_iff] at h
  exact fun pair hpair => (List.forall₂_iff_zip.mp h).2 hpair

lemma Ended.mono {Told Told' : String → Except Failure ReplicaWriteResult → Prop}
    {r : Except Failure ReplicationResult} {view : Db} (h : Ended v nodes quorum expected Told db r view)
    (hT : ∀ n x, Told n x → Told' n x) : Ended v nodes quorum expected Told' db r view := by
  have hsettled : ∀ {pairs rows}, Settled v nodes Told db pairs rows → Settled v nodes Told' db pairs rows :=
    fun hs => ⟨hs.made, fun pair hp => (hs.told pair hp).imp_right (hT _ _), hs.settled⟩
  cases h with
  | unplaced e => exact .unplaced e
  | crashed hs e he => exact .crashed (hsettled hs) e he
  | missed hs he hq => exact .missed (hsettled hs) he hq
  | refused hs he hq now e hc => exact .refused (hsettled hs) he hq now e hc
  | committed hs he hq now w view hc => exact .committed (hsettled hs) he hq now w _ hc

/-- With the outcomes in, the rows and the version are settled. -/
lemma wp_settlement (quorum : ℕ) (expected : Arg (Option ℤ)) (hprep : Prepared v nodes db)
    (ht : Tells answers v payload Told) {pairs : List Pair} {p : Point Db ρ Empty}
    (hmade : pairs.map Prod.fst = newRows v.versionId db.nextId (nodes.map StorageNode.nodeId))
    (htold : ∀ pair ∈ pairs, Faithful v pair.1.nodeId pair.2 ∧ Told pair.1.nodeId pair.2 p.world)
    (hview : p.session.view = withRows db (pairs.map fun pair => pair.1.enter .copying)) :
    wp answers (fun r q => Ended v nodes quorum expected (fun n x => Told n x q.world) db r q.session.view)
      (do
        let results ← forEach settleReplica pairs
        match firstError (pairs.map Prod.snd) with
        | some e => raise e
        | none => settleVersion v.versionId quorum expected nodes results) p := by
  have hids : ((db.replicas ++ pairs.map Prod.fst).map Replica.replicaId).Nodup := hmade ▸ hprep.ids _
  have hversion : ∀ pair ∈ pairs, db.version? pair.1.versionId = some v := by
    intro pair hp
    have hmem : pair.1 ∈ newRows v.versionId db.nextId (nodes.map StorageNode.nodeId) :=
      hmade ▸ List.mem_map_of_mem hp
    rw [(mem_newRows hmem).2.1]
    exact hprep.version
  have hworld : ∀ {β : Type} (q : Call β) w b w', answers q w b w' →
      (∀ n x, Told n x p.world → Told n x w) → ∀ n x, Told n x p.world → Told n x w' :=
    fun q w b w' hb hw n x hx => ht.stable q w b w' hb n x (hw n x hx)
  rw [wp_bind]
  refine wp_mono ?_ (wp_and (wp_settleAll hview hids hversion fun pair hp => (htold pair hp).1)
    (wp_world hworld fun n x hx => hx))
  rintro r q ⟨hq, hw⟩
  cases r with
  | error e => exact hq.elim
  | ok results =>
    obtain ⟨rfl, rows, hrows, hq⟩ := hq
    have hsettled : Settled v nodes (fun n x => Told n x q.world) db pairs rows :=
      ⟨hmade, fun pair hp => (htold pair hp).imp_right (hw _ _), hrows⟩
    rw [Post.seq_ok]
    cases he : firstError (pairs.map Prod.snd) with
    | some e =>
      rw [wp_raise, hq]
      exact .crashed hsettled e he
    | none =>
      have hlater : ∀ {β : Type} (c : Call β) w b w', answers c w b w' →
          (∀ n x, Told n x q.world → Told n x w) → ∀ n x, Told n x q.world → Told n x w' :=
        fun c w b w' hb hw n x hx => ht.stable c w b w' hb n x (hw n x hx)
      refine wp_mono ?_ (wp_and (wp_settleVersion hprep hsettled he hq) (wp_world hlater fun n x hx => hx))
      rintro r' q' ⟨hended, hw'⟩
      exact hended.mono hw'

/-- The rows are made, the writers run, and the rows and the version are settled. -/
lemma wp_replicateTo (hprep : Prepared v nodes db) (ht : Tells answers v payload Told) {p : Point Db ρ Empty}
    (hview : p.session.view = db) :
    wp answers (fun r q => Ended v nodes quorum expected (fun n x => Told n x q.world) db r q.session.view)
      (replicateTo v payload nodes quorum expected) p := by
  have hargs : (nodes.map fun n => (.value n.nodeId : Arg String)) =
      (nodes.map StorageNode.nodeId).map .value := by
    rw [List.map_map]
    rfl
  have hstripped : ∀ n ∈ nodes.map StorageNode.nodeId, strip n = n := by
    intro n hn
    obtain ⟨node, hnode, rfl⟩ := List.mem_map.mp hn
    exact hprep.stripped node hnode
  rw [replicateTo, wp_bind, hargs]
  refine wp_transaction_view (fun rs s hrun => ?_) fun e s _ hs => ?_
  swap
  · change Ended v nodes quorum expected _ db (.error e) s.view
    rw [hs, hview]
    exact .unplaced e
  rw [hview] at hrun
  obtain ⟨hne, rfl, hs⟩ := createReplicas_rows hstripped hrun
  obtain ⟨rs', hset⟩ := setReplicaStates_newRows (i := v.versionId) hprep.fresh hne
  rw [← hs] at hset
  rw [Post.seq_ok, wp_bind]
  refine wp_transaction_ok hset fun s' hs' => ?_
  rw [Post.seq_ok, wp_bind]
  refine wp_mono ?_ (wp_gatherWrites ht _)
  intro r q hq
  cases r with
  | error e => exact hq.elim
  | ok pending =>
    obtain ⟨hsession, hall⟩ := hq
    set rows := newRows v.versionId db.nextId (nodes.map StorageNode.nodeId) with hrows
    have hlength : rows.length = pending.length := by
      rw [hrows, length_newRows, List.length_map, hall.length_eq]
    have hfst : (rows.zip pending).map Prod.fst = rows := List.map_fst_zip hlength.le
    have hsnd : (rows.zip pending).map Prod.snd = pending := List.map_snd_zip hlength.ge
    have hnodes : rows.map Replica.nodeId = nodes.map StorageNode.nodeId := map_nodeId_newRows
    have hnamed : List.Forall₂ (fun n x => Faithful v n x ∧ Told n x q.world) (nodes.map StorageNode.nodeId)
        pending := List.forall₂_map_left_iff.mpr hall
    have htold := forall_zip_of_forall₂ hnodes hnamed
    have hcopying : q.session.view = withRows db ((rows.zip pending).map fun pair => pair.1.enter .copying) := by
      have hcomp : ((rows.zip pending).map fun pair => pair.1.enter .copying) =
          ((rows.zip pending).map Prod.fst).map (Replica.enter .copying) := by
        rw [List.map_map]
        rfl
      rw [hsession, hcomp, hfst]
      exact hs'
    have hend := wp_settlement quorum expected hprep ht hfst htold hcopying
    rw [hsnd] at hend
    exact hend

/-- What the checks before the placement ask for. -/
def Asked (policy : ReplicationPolicy) (replicationFactor writeQuorum : Arg (Option ℤ)) (factor quorum : ℕ) : Prop :=
  positiveOr "replication_factor" policy.factor replicationFactor = .ok factor ∧
    positiveOr "write_quorum" policy.writeQuorum writeQuorum = .ok quorum ∧ quorum ≤ factor

def chosen (db : Db) (v : Version) (factor : ℕ) : List StorageNode :=
  Placement.candidates db v.versionId v.sizeBytes factor

/-- A replication raises before it makes a row, or it runs on the chosen nodes. -/
lemma wp_replicateVersion (policy : ReplicationPolicy) (payloadFactory : Arg Payload)
    (replicationFactor writeQuorum expected : Arg (Option ℤ)) {p : Point Db ρ Empty}
    (hprep : ∀ factor, Prepared v (chosen p.session.view v factor) p.session.view)
    (ht : ∀ payload, Tells answers v payload Told) :
    wp answers (fun r q => (∃ e, r = .error e) ∧ q.session.view = p.session.view ∨
        ∃ factor quorum, Asked policy replicationFactor writeQuorum factor quorum ∧
          factor = (chosen p.session.view v factor).length ∧
          Ended v (chosen p.session.view v factor) quorum expected (fun n x => Told n x q.world) p.session.view r
            q.session.view)
      (replicateVersion policy (.value v.versionId) payloadFactory replicationFactor writeQuorum expected) p := by
  have hearly : ∀ e : Failure, (∃ e', (.error e : Except Failure ReplicationResult) = .error e') ∧
      p.session.view = p.session.view := fun e => ⟨⟨e, rfl⟩, rfl⟩
  rw [replicateVersion, wp_bind_lift]
  refine ⟨fun payload _ => ?_, fun e _ => Or.inl (hearly e)⟩
  rw [wp_bind_lift]
  refine ⟨fun factor hfactor => ?_, fun e _ => Or.inl (hearly e)⟩
  rw [wp_bind_lift]
  refine ⟨fun quorum hquorum => ?_, fun e _ => Or.inl (hearly e)⟩
  rw [wp_bind, wp_require]
  refine ⟨fun hle => ?_, fun _ => Or.inl (hearly _)⟩
  rw [Post.seq_ok, wp_bind_lift]
  refine ⟨fun _ _ => ?_, fun e _ => Or.inl (hearly e)⟩
  rw [bindArg, wp_bind_lift]
  refine ⟨fun i hi => ?_, fun e _ => Or.inl (hearly e)⟩
  cases hi
  rw [wp_bind, getVersion, wp_bind, wp_query, Post.seq_ok, wp_bind, wp_demand, (hprep factor).version]
  refine ⟨fun v' hv' => ?_, fun h => by cases h⟩
  cases hv'
  rw [Post.seq_ok, wp_bind, wp_require]
  refine ⟨fun _ => ?_, fun h => absurd (hprep factor).preparing h⟩
  rw [Post.seq_ok, wp_pure, Post.seq_ok, wp_bind, Placement.selectNodes, wp_bind, wp_query, Post.seq_ok, wp_bind,
    wp_require]
  refine ⟨fun hroom => ?_, fun _ => Or.inl (hearly _)⟩
  rw [Post.seq_ok, wp_pure, Post.seq_ok]
  refine wp_mono ?_ (wp_replicateTo (hprep factor) (ht payload) rfl)
  intro r q hended
  exact Or.inr ⟨factor, quorum, ⟨hfactor, hquorum, hle⟩, le_antisymm hroom Placement.length_candidates_le, hended⟩

end Replication

end Vault.Replication
