import Vault.Rebalance.CrashSafety

/-! When every storage call succeeds, an exposed job deletes the source bytes while the durable database
still counts the source and does not count the target: fewer copies than there were remain at a stop. -/

namespace Vault.Rebalance

open Vault.Common Vault.Metadata Vault.Storage Vault.Lib Vault.Lib.Script Vault.Lib.Transaction
open Vault.Repair (healthyReplicas)

def expectedBlob (version : Version) : Blob :=
  { checksum := version.checksum, sizeBytes := version.sizeBytes }

lemma expectedBlob_matches (version : Version) : (expectedBlob version).Matches version := ⟨rfl, rfl, rfl⟩

def calm (version : Version) : ℕ → Outcome := fun _ => { received := expectedBlob version }

/-- What the session sees, what is durable, what the nodes hold, and that no call fails. -/
structure Calm (version : Version) (isOpen : Bool) (d D : Db) (s : Store) (p : Stop) : Prop where
  view : p.session.view = d
  durable : p.session.durable = D
  inTransaction : p.session.inTransaction = isOpen
  store : p.world.store = s
  future : p.world.future = calm version

section Calm

variable {version : Version} {isOpen : Bool} {d d' D : Db} {s : Store} {p : Stop} {n m : String} {i : UUID}

lemma Calm.look (h : Calm version isOpen d D s p) : Calm version true d D s p.look :=
  ⟨h.view, h.durable, rfl, h.store, h.future⟩

lemma Calm.turn (h : Calm version isOpen d D s p) (s' : Store) :
    Calm version isOpen d D s' (p.turn (p.world.pass s')) :=
  ⟨h.view, h.durable, h.inTransaction, rfl, by
    rw [Point.turn, World.pass, h.future]
    rfl⟩

lemma Calm.verify (h : Calm version isOpen d D s p) {b : Blob} (hb : s n i = some b)
    (hv : b.valid = true) {R : Post Db Failure Note World Blob}
    (hR : ∀ q, Calm version isOpen d D s q → R (.ok b) q) : wp answered R (Job.verify n i) p := by
  refine wp_bind.mpr (wp_request.mpr fun x w hx => ?_)
  cases hx
  rw [h.future, h.store]
  simp only [calm, measureObject, hb, Post.seq_ok, raiseOnInvalid, hv, if_true]
  exact wp_pure.mpr (hR _ (h.turn s))

lemma Calm.delete (h : Calm version isOpen d D s p) {R : Post Db Failure Note World Unit}
    (hR : Calm version isOpen d D (s.set n i none) (p.turn (p.world.pass (s.set n i none))) →
      R (.ok ()) (p.turn (p.world.pass (s.set n i none)))) : wp answered R (Job.delete n i) p := by
  refine wp_bind.mpr (wp_request.mpr fun x w hx => ?_)
  cases hx
  rw [h.future, h.store]
  exact wp_pure.mpr (hR (h.turn _))

lemma Calm.copy (h : Calm version isOpen d D s p) {b : Blob} (hb : s n i = some b) (hm : s m i = none)
    {R : Post Db Failure Note World Unit}
    (hR : ∀ q, Calm version isOpen d D (s.set m i (some (expectedBlob version))) q → R (.ok ()) q) :
    wp answered R (Job.copy n m i) p := by
  refine wp_bind.mpr (wp_request.mpr fun x w hx => ?_)
  cases hx
  rw [h.future, h.store]
  simp only [calm, openStream, hb, Post.seq_ok]
  refine wp_bind.mpr (wp_pure.mpr (wp_bind.mpr (wp_request.mpr fun x w hx => ?_)))
  cases hx
  have hq := h.turn s
  rw [hq.future, hq.store]
  simp only [calm, hm, Post.seq_ok]
  exact wp_pure.mpr (hR _ (hq.turn _))

lemma Calm.now (h : Calm version isOpen d D s p) {R : Post Db Failure Note World Time}
    (hR : ∀ t q, Calm version isOpen d D s q → R (.ok t) q) : wp answered R Job.now p := by
  refine wp_request.mpr fun x w hx => ?_
  cases hx
  rw [h.store]
  exact hR _ _ (h.turn s)

lemma Calm.transaction (h : Calm version true d D s p) {α : Type} {body : Metadata.Tx α} {a : α}
    (hb : body.run d = .ok (a, d')) {R : Post Db Failure Note World α}
    (hR : ∀ q, Calm version true d' D s q → R (.ok a) q) :
    wp answered R (Script.transaction body) p := by
  have ha : atomic body p.session.view = (.ok a, d') := by
    rw [h.view]
    exact atomic_ok hb
  refine wp_transaction.mpr ?_
  rw [Session.begin_result, ha]
  refine hR _ ⟨?_, ?_, ?_, h.store, h.future⟩
  · rw [Point.move, Session.begin_view, ha]
  · simp [Point.move, Session.begin, h.inTransaction, h.durable]
  · simp [Point.move, Session.begin, h.inTransaction]

lemma Calm.block (h : Calm version false d D s p) {α : Type} {body : Metadata.Tx α} {a : α}
    (hb : body.run d = .ok (a, d')) {R : Post Db Failure Note World α}
    (hR : ∀ q, Calm version false d' d' s q → R (.ok a) q) :
    wp answered R (Script.transaction body) p := by
  have ha : atomic body p.session.view = (.ok a, d') := by
    rw [h.view]
    exact atomic_ok hb
  refine wp_transaction.mpr ?_
  rw [Session.begin_result, ha]
  have hbegin : (p.session.begin body).2 = Session.fresh d' := by
    simp [Session.begin, h.inTransaction, ha]
  rw [hbegin]
  exact hR _ ⟨rfl, rfl, rfl, h.store, h.future⟩

end Calm

section Counting

variable {i : UUID} {t : String} {d₀ d : Db} {s₀ s : Store} {source : String}

lemma Off.healthyNodes_subset (h : Off i [t] d₀ d) {r : Replica} (hr : r ∈ healthyReplicas d i)
    (ht : r.nodeId = t) :
    (healthyReplicas d₀ i).map Replica.nodeId ⊆ (healthyReplicas d i).map Replica.nodeId := by
  intro n hn
  obtain ⟨r', hr', rfl⟩ := List.mem_map.mp hn
  obtain ⟨hm, hi, hs⟩ := mem_healthyReplicas.mp hr'
  by_cases hne : r'.nodeId = t
  · rw [hne, ← ht]
    exact List.mem_map_of_mem hr
  · exact List.mem_map_of_mem (mem_healthyReplicas.mpr ⟨(h.rows r' hi (by simpa using hne)).mpr hm, hi, hs⟩)

lemma Off.healthy_le_of_mem (h : Off i [t] d₀ d) (hw : d₀.WellFormed) {r : Replica}
    (hr : r ∈ healthyReplicas d i) (ht : r.nodeId = t) :
    (healthyReplicas d₀ i).length ≤ (healthyReplicas d i).length := by
  simpa using ((nodup_healthyNodes hw i).subperm (h.healthyNodes_subset hr ht)).length_le

lemma Off.healthy_lt_of_free (h : Off i [t] d₀ d) (hw : d₀.WellFormed) {r : Replica}
    (hr : r ∈ healthyReplicas d i) (ht : r.nodeId = t)
    (hfree : ∀ r ∈ healthyReplicas d₀ i, r.nodeId ≠ t) :
    (healthyReplicas d₀ i).length < (healthyReplicas d i).length := by
  have hnodup : (t :: (healthyReplicas d₀ i).map Replica.nodeId).Nodup := by
    refine List.nodup_cons.mpr ⟨?_, nodup_healthyNodes hw i⟩
    intro hn
    obtain ⟨r', hr', he⟩ := List.mem_map.mp hn
    exact hfree r' hr' he
  have ht' : t ∈ (healthyReplicas d i).map Replica.nodeId := ht ▸ List.mem_map_of_mem hr
  have hsub := List.cons_subset.mpr ⟨ht', h.healthyNodes_subset hr ht⟩
  simpa using (hnodup.subperm hsub).length_le

/-- After the source bytes are gone, a database that counts no copy on the target beyond those at the
start counts fewer copies than at the start. -/
lemma fewer_backed (hw : d.WellFormed) (h : Off i [t] d₀ d) (hs : StoreOff i [t] s₀ s)
    (ht : ∀ r ∈ backed d s i, r.nodeId = t → r ∈ backed d₀ s₀ i)
    (hsource : ∃ r ∈ backed d₀ s₀ i, r.nodeId = source) :
    (backed d (s.set source i none) i).length < (backed d₀ s₀ i).length := by
  have hgone : ∀ r ∈ backed d (s.set source i none) i, r.nodeId ≠ source := by
    rintro r hr rfl
    obtain ⟨-, hi, -, v, -, b, hb, -⟩ := mem_backed.mp hr
    rw [hi, Store.set_self] at hb
    cases hb
  have hsub : backed d (s.set source i none) i ⊆
      (backed d₀ s₀ i).filter (fun r => r.nodeId ≠ source) := by
    intro r hr
    refine List.mem_filter.mpr ⟨?_, by simpa using hgone r hr⟩
    obtain ⟨hm, hi, hst, v, hv, b, hb, hmatch⟩ := mem_backed.mp hr
    have hne : (r.versionId, r.nodeId) ≠ (i, source) := fun he => hgone r hr (congrArg Prod.snd he)
    rw [Store.set_ne hne] at hb
    have hr' : r ∈ backed d s i := mem_backed.mpr ⟨hm, hi, hst, v, hv, b, hb, hmatch⟩
    by_cases hn : r.nodeId = t
    · exact ht r hr' hn
    · exact (h.backed_mem_iff hs (by simpa using hn)).mp hr'
  obtain ⟨r, hr, hrs⟩ := hsource
  calc (backed d (s.set source i none) i).length
      ≤ ((backed d₀ s₀ i).filter (fun r => r.nodeId ≠ source)).length :=
        ((nodup_backed hw _ i).subperm hsub).length_le
    _ < (backed d₀ s₀ i).length := List.length_filter_lt_length_iff_exists.mpr ⟨r, hr, by simp [hrs]⟩

end Counting

section Copying

variable {version : Version} {isOpen : Bool} {job : RebalanceJob} {d D : Db} {s : Store} {p : Stop}

lemma Calm.enterCopying (h : Calm version true d D s p) (hw : d.WellFormed) {i : UUID} {N : List String}
    {replica : Replica} (hr : replica ∈ d.replicas) (hn : replica.nodeId ∈ N)
    (hc : Copyable replica.status) {R : Post Db Failure Note World Replica}
    (hR : ∀ d' q, Calm version true d' D s q → Off i N d d' → replica.enter .copying ∈ d'.replicas →
      R (.ok (replica.enter .copying)) q) :
    wp answered R (enterCopying replica) p := by
  have hrow : d.replica? replica.replicaId = some replica := replica?_of_mem hw hr
  have hoff : ∀ st, Off i N d (d.amendReplica replica.replicaId (Replica.enter st)) :=
    fun st => Off.amendReplica hw hr hn (fun _ => rfl) fun _ => rfl
  have hmem : ∀ st, replica.enter st ∈ (d.amendReplica replica.replicaId (Replica.enter st)).replicas :=
    fun st => (mem_amendReplica hw hr _).mpr (Or.inr rfl)
  unfold Rebalance.enterCopying
  simp only [Copyable, List.mem_cons, List.not_mem_nil, or_false] at hc
  refine wp_ite.mpr ⟨fun hs => ?_, fun _ => wp_ite.mpr ⟨fun hs => ?_, fun hp => wp_ite.mpr ⟨fun hs => ?_, fun hs => ?_⟩⟩⟩
  · simp [hs] at hc
  · refine h.transaction (setReplicaState_along hrow (by simp [hs]) (by simp [hs, replicaStateTransitions]))
      fun q hq => hR _ q hq (hoff _) (hmem _)
  · have hto : .repairing ∈ replicaStateTransitions replica.status := by
      simp only [List.mem_cons, List.not_mem_nil, or_false] at hs
      rcases hs with hs | hs | hs <;> simp [hs, replicaStateTransitions]
    have hne : replica.status ≠ .repairing := by
      intro he
      simp [he] at hs
    refine wp_bind.mpr (h.transaction (setReplicaState_along hrow hne hto) fun q hq => ?_)
    have hw' := (hoff .repairing).wellFormed
    have hrow' : (d.amendReplica replica.replicaId (Replica.enter .repairing)).replica? replica.replicaId =
        some (replica.enter .repairing) := replica?_of_mem hw' (hmem .repairing)
    refine hq.transaction (setReplicaState_along (r := replica.enter .repairing) hrow' (by simp [Replica.enter])
      (by simp [Replica.enter, replicaStateTransitions])) fun q' hq' => hR _ q' hq' ?_ ?_
    · exact (hoff .repairing).trans (Off.amendReplica hw' (hmem .repairing) hn (fun _ => rfl) fun _ => rfl)
    · exact (mem_amendReplica hw' (hmem .repairing) _).mpr (Or.inr rfl)
  · have hcopy : replica.status = .copying := by
      simp only [List.mem_cons, List.not_mem_nil, or_false, not_or] at hs
      tauto
    have hsame : replica.enter .copying = replica := by
      rw [Replica.enter, ← hcopy]
    refine wp_bind.mpr (wp_require.mpr ⟨fun _ => wp_pure.mpr ?_, fun hne => absurd hcopy hne⟩)
    rw [hsame] at hR
    exact hR d p h (Off.refl hw) hr

/-- The row that the copy goes to: there is none yet, or one that may enter `COPYING`. -/
def Receptive (job : RebalanceJob) (d : Db) : Prop :=
  ∀ r ∈ d.replicaOn? job.versionId job.targetNodeId, Copyable r.status

lemma createReplica_run {i : UUID} {n : String} {node : StorageNode} (hw : d.WellFormed)
    (hv : d.version? i = some version) (hn : d.node? n = some node) (hne : n ≠ "")
    (hfree : d.replicaOn? i n = none) :
    (createReplica (.value i) (.value n)).run d =
      .ok ({ replicaId := d.newUuid, versionId := i, nodeId := n }, insertReplica i n d) := by
  have hstrip : strip n = n := by
    have hid : node.nodeId = n := Table.lookup_key hn
    rw [← hid]
    exact hw.nodeIds node (Table.lookup_mem hn)
  simp [createReplica, validateNodeId, validateNonEmpty, bindArg, hstrip, hne, hv, hn, hfree]

lemma Calm.targetReplica (h : Calm version true d D s p) (hw : d.WellFormed) {node : StorageNode}
    (hv : d.version? job.versionId = some version) (hn : d.node? job.targetNodeId = some node)
    (hne : job.targetNodeId ≠ "") (hc : Receptive job d) {R : Post Db Failure Note World Replica}
    (hR : ∀ d' q r, Calm version true d' D s q → Off job.versionId [job.targetNodeId] d d' →
      r ∈ d'.replicas → r.place = (job.versionId, job.targetNodeId) → r.status = .copying → R (.ok r) q) :
    wp answered R (targetReplica job) p := by
  refine wp_bind.mpr (wp_bind.mpr (wp_query.mpr ?_))
  have hl := h.look
  have hview : p.session.view = d := h.view
  cases hrow : d.replicaOn? job.versionId job.targetNodeId with
  | none =>
    simp only [Post.seq_ok, hview, hrow]
    refine hl.transaction (createReplica_run hw hv hn hne hrow) fun q hq => ?_
    have hoff : Off job.versionId [job.targetNodeId] d (insertReplica job.versionId job.targetNodeId d) :=
      Off.insertReplica hw (by simp) hrow
    refine hq.enterCopying hoff.wellFormed (i := job.versionId) (N := [job.targetNodeId])
      (by simp [insertReplica]) (by simp) (by simp [Copyable]) fun d' q' hq' hoff' hm => ?_
    exact hR d' q' _ hq' (hoff.trans hoff') hm rfl rfl
  | some r =>
    simp only [Post.seq_ok, hview, hrow]
    have hplace : r.place = (job.versionId, job.targetNodeId) := Table.lookup_key hrow
    refine wp_pure.mpr (hl.enterCopying hw (i := job.versionId) (N := [job.targetNodeId])
      (Table.lookup_mem hrow) (by simp [show r.nodeId = job.targetNodeId from congrArg Prod.snd hplace])
      (hc r hrow) fun d' q' hq' hoff' hm => ?_)
    exact hR d' q' _ hq' hoff' hm hplace rfl

/-- The copy succeeds, and the view then counts the target while nothing of it is durable. -/
lemma Calm.copyToTarget (h : Calm version isOpen d D s p) (hw : d.WellFormed) {node : StorageNode}
    (hv : d.version? job.versionId = some version) (hn : d.node? job.targetNodeId = some node)
    (hne : job.targetNodeId ≠ "") (hc : Receptive job d) (hst : job.sourceNodeId ≠ job.targetNodeId)
    (hsource : ∃ r ∈ backed d s job.versionId, r.nodeId = job.sourceNodeId)
    {R : Post Db Failure Note World Unit}
    (hR : ∀ d' s' q, Calm version true d' D s' q → Off job.versionId [job.targetNodeId] d d' →
      StoreOff job.versionId [job.targetNodeId] s s' →
      (∃ r ∈ healthyReplicas d' job.versionId, r.nodeId = job.targetNodeId) → R (.ok ()) q) :
    wp answered R (copyToTarget job version) p := by
  have hi : version.versionId = job.versionId := version?_id hv
  obtain ⟨r₀, hr₀, hnode₀⟩ := hsource
  obtain ⟨hm₀, hi₀, hs₀, v, hv', b, hb, hmatch⟩ := mem_backed.mp hr₀
  rw [hi₀, hv] at hv'
  cases hv'
  rw [hi₀, hnode₀] at hb
  have hne' : (job.versionId, job.sourceNodeId) ≠ (job.versionId, job.targetNodeId) :=
    fun he => hst (congrArg Prod.snd he)
  unfold Rebalance.copyToTarget verifySource
  rw [hi]
  refine wp_bind.mpr (wp_bind.mpr (wp_query.mpr (wp_bind.mpr (wp_require.mpr ⟨fun _ => ?_, fun hno => ?_⟩))))
  · refine wp_bind.mpr (h.look.verify hb hmatch.1 fun q₁ h₁ => ?_)
    refine wp_require.mpr ⟨fun _ => ?_, fun hno => absurd hmatch hno⟩
    refine wp_bind.mpr (h₁.targetReplica hw hv hn hne hc fun d' q₂ r h₂ hoff hr hplace hcopying => ?_)
    refine wp_bind.mpr (h₂.delete fun h₃ => ?_)
    refine wp_bind.mpr (h₃.copy (b := b) ?_ (Store.set_self _ _ _ _) fun q₄ h₄ => ?_)
    · rw [Store.set_ne hne']
      exact hb
    refine wp_bind.mpr (h₄.verify (Store.set_self _ _ _ _) rfl fun q₅ h₅ => ?_)
    refine wp_bind.mpr (wp_require.mpr ⟨fun _ => ?_, fun hno => absurd (expectedBlob_matches version) hno⟩)
    refine wp_bind.mpr (h₅.now fun now q₆ h₆ => ?_)
    have hw' := hoff.wellFormed
    have hv' : d'.version? r.versionId = some version := by
      rw [Db.version?, hoff.versions, show r.versionId = job.versionId from congrArg Prod.fst hplace]
      exact hv
    have htarget : r.nodeId = job.targetNodeId := congrArg Prod.snd hplace
    refine wp_bind.mpr (h₆.transaction (markVerified_along _ (replica?_of_mem hw' hr) hv' (Or.inl hcopying)) fun q₇ h₇ => ?_)
    refine wp_pure.mpr (hR _ _ q₇ h₇ (hoff.trans (Off.amendReplica hw' hr (by simp [htarget]) (fun _ => rfl)
      fun _ => rfl)) ?_ ?_)
    · intro n hn'
      have hne'' : (job.versionId, n) ≠ (job.versionId, job.targetNodeId) :=
        fun he => hn' (by simpa using congrArg Prod.snd he)
      rw [Store.set_ne hne'', Store.set_ne hne'']
    · refine ⟨(r.enter .healthy).verify now version.checksum version.sizeBytes, ?_, htarget⟩
      refine mem_healthyReplicas.mpr ⟨(mem_amendReplica hw' hr _).mpr (Or.inr rfl), ?_, rfl⟩
      exact congrArg Prod.fst hplace
  · exact absurd ⟨r₀, mem_healthyReplicas.mpr ⟨h.view ▸ hm₀, hi₀, hs₀⟩, hnode₀⟩ hno

end Copying

section Exposed

variable {cfg : Config} {version : Version} {isOpen : Bool} {job : RebalanceJob} {d d₀ D : Db} {s s₀ : Store} {p : Stop}

/-- Some state left behind has fewer copies than there were. -/
def Fewer (job : RebalanceJob) (d₀ : Db) (s₀ : Store) (p : Stop) : Prop :=
  ∃ session w, .state session w ∈ p.past ∧
    (backed session.durable w.store job.versionId).length < (backed d₀ s₀ job.versionId).length

lemma keeps_fewer {α : Type} (x : Job α) : Keeps answered (Fewer job d₀ s₀) x := by
  rintro p ⟨session, w, hm, hlt⟩
  exact wp_mono (fun _ _ hm' => ⟨session, w, hm', hlt⟩) (wp_past hm)

lemma Calm.removeSource (h : Calm version isOpen d D s p) (hi : version.versionId = job.versionId)
    (hlt : cfg.replicationFactor < (healthyReplicas d job.versionId).length)
    (hfew : (backed D (s.set job.sourceNodeId job.versionId none) job.versionId).length <
      (backed d₀ s₀ job.versionId).length) :
    wp answered (fun _ => Fewer job d₀ s₀) (removeSource cfg job version) p := by
  unfold Rebalance.removeSource
  rw [hi]
  refine wp_bind.mpr (wp_query.mpr (wp_bind.mpr (wp_require.mpr ⟨fun _ => ?_, fun hno => ?_⟩)))
  · refine wp_bind.mpr (h.look.delete fun hq => ?_)
    refine keeps_fewer _ _ ⟨_, _, List.mem_append_right _ List.mem_cons_self, ?_⟩
    have hdurable : p.look.session.durable = D := h.durable
    rw [hdurable]
    exact hfew
  · rw [h.view] at hno
    exact absurd hlt hno

/-- No copy that counts is on the target, so the target has to be copied: the source bytes go before the
copy counts. -/
lemma Calm.migrate (h : Calm version isOpen d D s₀ p) (hoff : Off job.versionId [job.targetNodeId] d₀ d)
    (hD : D = d) {node : StorageNode} (hv : d.version? job.versionId = some version)
    (hn : d.node? job.targetNodeId = some node) (hne : job.targetNodeId ≠ "") (hc : Receptive job d)
    (hsource : ∃ r ∈ backed d₀ s₀ job.versionId, r.nodeId = job.sourceNodeId)
    (hfree : ∀ r ∈ backed d₀ s₀ job.versionId, r.nodeId ≠ job.targetNodeId)
    (hcount : ∀ d', Off job.versionId [job.targetNodeId] d₀ d' →
      (∃ r ∈ healthyReplicas d' job.versionId, r.nodeId = job.targetNodeId) →
      cfg.replicationFactor < (healthyReplicas d' job.versionId).length)
    {α : Type} (k : Unit → Job α) :
    wp answered (fun _ => Fewer job d₀ s₀)
      (Rebalance.copyToTarget job version >>= fun _ => Rebalance.removeSource cfg job version >>= k) p := by
  subst hD
  obtain ⟨r₀, hr₀, hnode₀⟩ := hsource
  have hst : job.sourceNodeId ≠ job.targetNodeId := hnode₀ ▸ hfree r₀ hr₀
  have hr₀' : r₀ ∈ backed D s₀ job.versionId :=
    (hoff.backed_mem_iff (fun _ _ => rfl) (by simpa using hfree r₀ hr₀)).mpr hr₀
  refine wp_bind.mpr (h.copyToTarget hoff.wellFormed hv hn hne hc hst ⟨r₀, hr₀', hnode₀⟩ ?_)
  intro d' s' q hq hoff' hstore htarget
  refine wp_bind_keeps (hq.removeSource (version?_id hv) (hcount d' (hoff.trans hoff') htarget) ?_)
    fun a => keeps_fewer (k a)
  refine fewer_backed hoff.wellFormed hoff hstore ?_ ⟨r₀, hr₀, hnode₀⟩
  intro r hr hrt
  obtain ⟨hm, hi, hs, -⟩ := mem_backed.mp hr
  have hrow : D.replicaOn? job.versionId job.targetNodeId = some r := by
    have hplace : r.place = (job.versionId, job.targetNodeId) := Prod.ext hi hrt
    rw [Db.replicaOn?, ← hplace]
    exact Table.lookup_of_mem hoff.wellFormed.places hm
  have hcopyable := hc r hrow
  simp [hs, Copyable] at hcopyable

lemma healthy_free (hw : d₀.WellFormed)
    (hs : ∀ r ∈ d₀.replicaOn? job.versionId job.targetNodeId, r.status ≠ .healthy) :
    ∀ r ∈ healthyReplicas d₀ job.versionId, r.nodeId ≠ job.targetNodeId := by
  intro r hr hn
  obtain ⟨hm, hi, hst⟩ := mem_healthyReplicas.mp hr
  refine hs r ?_ hst
  have hplace : r.place = (job.versionId, job.targetNodeId) := Prod.ext hi hn
  rw [Option.mem_def, Db.replicaOn?, ← hplace]
  exact Table.lookup_of_mem hw.places hm

/-- The target has a row that is not `HEALTHY`, or none. -/
lemma Calm.moveFresh (h : Calm version isOpen d₀ d₀ s₀ p) (hw : d₀.WellFormed)
    {node : StorageNode} (hv : d₀.version? job.versionId = some version)
    (hn : d₀.node? job.targetNodeId = some node) (hne : job.targetNodeId ≠ "") (hc : Receptive job d₀)
    (hsource : ∃ r ∈ backed d₀ s₀ job.versionId, r.nodeId = job.sourceNodeId)
    (hlt : cfg.replicationFactor ≤ (healthyReplicas d₀ job.versionId).length)
    {α : Type} (k : Unit → Job α) :
    wp answered (fun _ => Fewer job d₀ s₀)
      (Rebalance.copyToTarget job version >>= fun _ => Rebalance.removeSource cfg job version >>= k) p := by
  have hs : ∀ r ∈ d₀.replicaOn? job.versionId job.targetNodeId, r.status ≠ .healthy := by
    intro r hr he
    have hcopyable := hc r hr
    simp [he, Copyable] at hcopyable
  have hfree := healthy_free hw hs
  refine h.migrate (Off.refl hw) rfl hv hn hne hc hsource
    (fun r hr => hfree r (List.mem_of_mem_filter hr)) ?_ k
  rintro d' hoff ⟨r, hr, ht⟩
  exact hlt.trans_lt (hoff.healthy_lt_of_free hw hr ht hfree)

/-- The target row is `HEALTHY` but its bytes do not match: the row is marked `CORRUPTED` first, and
that is durable. -/
lemma Calm.moveMismatched (h : Calm version false d₀ d₀ s₀ p) (hw : d₀.WellFormed)
    {node : StorageNode} (hv : d₀.version? job.versionId = some version)
    (hn : d₀.node? job.targetNodeId = some node) (hne : job.targetNodeId ≠ "") {r : Replica}
    (hr : d₀.replicaOn? job.versionId job.targetNodeId = some r) (hs : r.status = .healthy) {b : Blob}
    (hb : s₀ job.targetNodeId job.versionId = some b) (hm : ¬b.Matches version)
    (hsource : ∃ r ∈ backed d₀ s₀ job.versionId, r.nodeId = job.sourceNodeId)
    (hlt : cfg.replicationFactor < (healthyReplicas d₀ job.versionId).length)
    {α : Type} (k : Unit → Job α) :
    wp answered (fun _ => Fewer job d₀ s₀)
      (Script.transaction (setReplicaState (.value r.replicaId) (.value .corrupted)) >>= fun _ =>
        Rebalance.copyToTarget job version >>= fun _ => Rebalance.removeSource cfg job version >>= k) p := by
  have hmem : r ∈ d₀.replicas := Table.lookup_mem hr
  have hplace : r.place = (job.versionId, job.targetNodeId) := Table.lookup_key hr
  have htarget : r.nodeId = job.targetNodeId := congrArg Prod.snd hplace
  have hoff : Off job.versionId [job.targetNodeId] d₀
      (d₀.amendReplica r.replicaId (Replica.enter .corrupted)) :=
    Off.amendReplica hw hmem (by simp [htarget]) (fun _ => rfl) fun _ => rfl
  refine wp_bind.mpr (h.block (setReplicaState_along (replica?_of_mem hw hmem) (by simp [hs])
    (by simp [hs, replicaStateTransitions])) fun q hq => ?_)
  have hfree := free_of_mismatch hv hb hm
  refine hq.migrate hoff rfl hv hn hne ?_ hsource (fun r hr => by simpa using hfree r hr) ?_ k
  · intro r' hr'
    have hrow := (mem_amendReplica hw hmem r').mp (Table.lookup_mem hr')
    have hplace' : r'.place = (job.versionId, job.targetNodeId) := Table.lookup_key hr'
    rcases hrow with ⟨-, hne'⟩ | rfl
    · exact absurd (hplace'.trans hplace.symm) hne'
    · simp [Replica.enter, Copyable]
  · rintro d' hoff' ⟨r', hr', ht⟩
    exact hlt.trans_le (hoff'.healthy_le_of_mem hw hr' ht)

lemma Calm.moveReplica (h : Calm version false d₀ d₀ s₀ p) (hw : d₀.WellFormed)
    {node : StorageNode} (hv : d₀.version? job.versionId = some version)
    (hn : d₀.node? job.targetNodeId = some node) (hne : job.targetNodeId ≠ "")
    (hsource : ∃ r ∈ backed d₀ s₀ job.versionId, r.nodeId = job.sourceNodeId)
    (hsurplus : Surplus cfg job d₀ s₀) :
    wp answered (fun _ => Fewer job d₀ s₀)
      (moveReplica cfg job version (d₀.replicaOn? job.versionId job.targetNodeId)) p := by
  have hi : version.versionId = job.versionId := version?_id hv
  unfold Surplus at hsurplus
  unfold Rebalance.moveReplica
  refine wp_bind.mpr ?_
  cases hr : d₀.replicaOn? job.versionId job.targetNodeId with
  | none =>
    rw [hr] at hsurplus
    exact wp_pure.mpr (h.moveFresh hw hv hn hne (by simp [Receptive, hr]) hsource hsurplus _)
  | some r =>
    rw [hr] at hsurplus
    dsimp only at hsurplus
    refine wp_ite.mpr ⟨fun hs => ?_, fun hs => ?_⟩
    · rw [if_pos hs] at hsurplus
      obtain ⟨hlt, b, hb, hvalid⟩ := hsurplus
      rw [hi]
      refine wp_bind.mpr (h.verify hb hvalid fun q hq => ?_)
      refine wp_ite.mpr ⟨fun hm => wp_pure.mpr ?_, fun hm => ?_⟩
      · refine wp_bind_keeps (hq.removeSource hi hlt ?_) fun a => keeps_fewer _
        exact fewer_backed (t := job.targetNodeId) hw (Off.refl hw) (fun _ _ => rfl) (fun r hr _ => hr) hsource
      · have hmove := hq.moveMismatched hw hv hn hne hr hs hb hm hsource hlt
          (fun _ => do
            save (markJob job.rebalanceId .succeeded none)
            pure (rebalanceResult (job.mark .succeeded none) true))
        refine wp_bind.mpr (wp_mono ?_ (wp_bind.mp hmove))
        intro r' q' hq'
        cases r' with
        | ok a => exact wp_pure.mpr hq'
        | error e => exact hq'
    · rw [if_neg hs] at hsurplus
      refine wp_pure.mpr (h.moveFresh hw hv hn hne ?_ hsource hsurplus.2 _)
      intro r' hr'
      cases hr.symm.trans hr'
      exact hsurplus.1

lemma Quiet.calm_started {version : Version} {db : Db} {store : Store} {p : Stop} (h : Quiet db store p)
    (hf : p.world.future = calm version) :
    Calm version false (Db.started db job) (Db.started db job) store
      (p.move (p.session.commit fun db => db.amendRebalanceJob job.rebalanceId RebalanceJob.start)) := by
  have hcommit : p.session.commit (fun db => db.amendRebalanceJob job.rebalanceId RebalanceJob.start) =
      Session.fresh (Db.started db job) := by
    rw [Session.commit, h.view]
    rfl
  rw [hcommit]
  exact ⟨rfl, rfl, rfl, h.store, hf⟩

lemma wp_startJob_exposed {db : Db} {store : Store} (hw : db.WellFormed)
    (hnames : ∀ n ∈ db.nodes, n.nodeId ≠ "") (hr : Runs cfg job version db)
    (hsource : ∃ r ∈ backed db store job.versionId, r.nodeId = job.sourceNodeId)
    (hsurplus : Surplus cfg job db store) {p : Stop} (hp : Quiet db store p)
    (hf : p.world.future = calm version) :
    wp answered (fun _ => Fewer job db store) (startJob cfg job) p := by
  have hview : p.session.view = db := hp.view
  obtain ⟨source, hs⟩ := Option.isSome_iff_exists.mp hr.source
  obtain ⟨target, ht⟩ := Option.isSome_iff_exists.mp hr.target
  have hne : job.targetNodeId ≠ "" := by
    have hid : target.nodeId = job.targetNodeId := Table.lookup_key ht
    rw [← hid]
    exact hnames target (Table.lookup_mem ht)
  refine wp_bind.mpr (wp_bind.mpr (wp_query.mpr (wp_bind.mpr ?_)))
  rw [hview, hr.found]
  refine wp_pure.mpr (wp_bind.mpr (wp_require.mpr ⟨fun _ => ?_, fun hno => absurd hr.committed hno⟩))
  refine wp_pure.mpr (wp_bind.mpr (wp_bind.mpr (wp_query.mpr ?_)))
  rw [show p.look.session.view = db from hview, Post.seq_ok, hs]
  refine wp_pure.mpr (wp_bind.mpr (wp_bind.mpr (wp_query.mpr ?_)))
  rw [show p.look.look.session.view = db from hview, Post.seq_ok, ht]
  refine wp_pure.mpr (wp_bind.mpr (wp_query.mpr (wp_bind.mpr (wp_save.mpr ?_))))
  rw [show p.look.look.look.session.view = db from hview]
  have hcalm : Calm version false (Db.started db job) (Db.started db job) store _ :=
    hp.look.look.look.look.calm_started hf
  have hw' : (Db.started db job).WellFormed := hw.frame rfl rfl le_rfl
  have hsurplus' : Surplus cfg job.start (Db.started db job) store := hsurplus
  have hmove : wp answered (fun _ => Fewer job.start (Db.started db job) store)
      (moveReplica cfg job.start version
        ((Db.started db job).replicaOn? job.start.versionId job.start.targetNodeId)) _ :=
    hcalm.moveReplica hw' hr.found ht hne hsource hsurplus'
  refine wp_handle.mpr (wp_mono ?_ hmove)
  intro r q hq
  cases r with
  | ok result => exact hq
  | error e => exact keeps_fewer _ q hq

lemma not_crashSafe_of_exposed {db : Db} {store : Store} {rebalanceId : UUID} (hw : db.WellFormed)
    (hnames : ∀ n ∈ db.nodes, n.nodeId ≠ "") (hjob : db.rebalanceJob? rebalanceId = some job)
    (h : Exposed cfg job db store) : ¬CrashSafe cfg rebalanceId db store := by
  obtain ⟨version, hr⟩ := h.runs
  intro hsafe
  have hp : Quiet db store (Point.start db ⟨store, calm version⟩) := ⟨rfl, rfl, rfl, rfl⟩
  have hwp : wp answered (fun _ => Fewer job db store) (runJob cfg rebalanceId)
      (Point.start db ⟨store, calm version⟩) := by
    refine wp_bind.mpr (wp_query.mpr (wp_bind.mpr (wp_demand.mpr ⟨fun job' hj => ?_, fun hnone => ?_⟩)))
    · cases hj.symm.trans hjob
      refine wp_ite.mpr ⟨fun hs => absurd hs hr.pending.1, fun _ => ?_⟩
      refine wp_ite.mpr ⟨fun hs => absurd hs hr.pending.2, fun _ => ?_⟩
      exact wp_startJob_exposed hw hnames hr h.counts h.surplus hp.look rfl
    · cases hnone.symm.trans hjob
  obtain ⟨session, w, hm, hlt⟩ := wp_sound (fun _ _ => rfl) hwp
  have hle := hsafe job hjob (calm version) session w hm
  rw [min_eq_left h.few] at hle
  exact absurd hlt (not_lt.mpr hle)

end Exposed

/-- A stop of the job at any point leaves as many copies as there were, or as many as the factor asks
for, exactly when the job is not exposed. -/
theorem crash_safe_iff_not_exposed (cfg : Config) (rebalanceId : UUID) (db : Db) (store : Store)
    (hw : db.WellFormed) (hnames : ∀ n ∈ db.nodes, n.nodeId ≠ "") :
    CrashSafe cfg rebalanceId db store ↔
      ¬∃ job ∈ db.rebalanceJob? rebalanceId, Exposed cfg job db store := by
  constructor
  · rintro hsafe ⟨job, hjob, h⟩
    exact not_crashSafe_of_exposed hw hnames hjob h hsafe
  · exact crashSafe_of_not_exposed hw

def sampleJob : RebalanceJob :=
  { rebalanceId := ⟨3⟩, versionId := ⟨1⟩, sourceNodeId := "a", targetNodeId := "b" }

def movingDb : Db := { sampleDb with repairJobs := [], rebalanceJobs := [sampleJob] }

lemma movingDb_wellFormed : movingDb.WellFormed where
  replicaIds := by decide
  freshReplica := by decide
  places := by decide
  nodeIds := by decide

def singleCopy : Config := ⟨1, 3, le_rfl, by decide⟩

theorem crash_safe_without_source_bytes :
    movingDb.WellFormed ∧ CrashSafe singleCopy ⟨3⟩ movingDb (fun _ _ => none) := by
  refine ⟨movingDb_wellFormed, ?_⟩
  refine (crash_safe_iff_not_exposed singleCopy ⟨3⟩ movingDb _ movingDb_wellFormed (by decide)).mpr ?_
  rintro ⟨job, -, h⟩
  obtain ⟨r, hr, -⟩ := h.counts
  obtain ⟨-, -, -, v, -, b, hb, -⟩ := mem_backed.mp hr
  cases hb

/-- The only copy is moved from `a` to `b`; a stop right after the source bytes are deleted leaves none. -/
theorem only_copy_lost_at_a_stop :
    movingDb.WellFormed ∧ (backed movingDb sampleStore ⟨1⟩).length = 1 ∧
      ¬CrashSafe singleCopy ⟨3⟩ movingDb sampleStore := by
  refine ⟨movingDb_wellFormed, by decide, ?_⟩
  have hjob : movingDb.rebalanceJob? ⟨3⟩ = some sampleJob := by decide
  have hfew : singleCopy.replicationFactor ≤ (healthyReplicas movingDb ⟨1⟩).length := by decide
  refine not_crashSafe_of_exposed movingDb_wellFormed (by decide) hjob ?_
  exact ⟨⟨sampleVersion, ⟨by decide, by decide⟩, by decide, rfl, by decide, by decide⟩, by decide, by decide, hfew⟩

end Vault.Rebalance
