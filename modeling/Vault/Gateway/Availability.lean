import Vault.Gateway.RoundTrip

/-! When a download completes. The preflight picks the first target that answers; the generator then asks that target
and those after it, in order, until one streams. A target before the picked one is not asked again. -/

namespace Vault.Gateway

open Vault.Common Vault.Metadata Vault.Storage Vault.Lib Vault.Lib.Script Vault.Lib.Transaction Vault.Replication

/-- Which nodes answer a preflight and which of them stream to the end; the others refuse, before the first byte. -/
structure Behaves (heads streams : String → Bool) (k : Key) {ρ : Type}
    (answers : ∀ {β : Type}, ReadCall β → ρ → β → ρ → Prop) : Prop where
  connect : ∀ n w b w', answers (.connect n) w b w' → b = .ok ()
  close : ∀ n w b w', answers (.close n) w b w' → b = .ok ()
  head : ∀ n w b w', answers (.head n k) w b w' → (heads n = true ∧ ∃ size, b = .ok size) ∨
    heads n = false ∧ ∃ e, b = .error (.client e)
  stream : ∀ n w d w', answers (.stream n k) w d w' → (streams n = true ∧ d.ending = none) ∨
    streams n = false ∧ d.chunks = [] ∧ ∃ e, d.ending = some e ∧ e.Caught

/-- The first target that answers, or one after it, streams. -/
def Reachable (heads streams : String → Bool) (targets : List String) : Prop :=
  ∃ pre n post, targets = pre ++ n :: post ∧ (∀ m ∈ pre, heads m = false) ∧ heads n = true ∧
    ∃ m ∈ n :: post, streams m = true

section Steps

variable {heads streams : String → Bool} {k : Key} {ρ : Type} {answers : ∀ {β : Type}, ReadCall β → ρ → β → ρ → Prop}
  {p : Point Db ρ Sent}

lemma wp_readCall {α : Type} {R : Post Db Failure Sent ρ α} {q : ReadCall (Except Failure α)} :
    wp answers R (readCall q) p ↔ ∀ r w, answers q p.world r w → R r (p.turn w) := by
  rw [readCall, wp_bind, wp_request]
  simp only [Post.seq_ok, wp_lift]

/-- A call that is closed afterwards ends as it did before. -/
lemma wp_closed (h : Behaves heads streams k answers) {α : Type} {x : Download α} {n : String}
    {P : Except Failure α → Prop} (hx : wp answers (fun r _ => P r) x p) :
    wp answers (fun r _ => P r) (ensure x (readCall (.close n))) p := by
  refine wp_ensure.mpr (wp_mono ?_ hx)
  intro r q hr
  refine wp_readCall.mpr fun b w hb => ?_
  cases h.close n _ b w hb
  exact hr

lemma wp_answersHead_behaves (h : Behaves heads streams k answers) (n : String) :
    wp answers (fun r _ => r = .ok (heads n)) (answersHead k n) p := by
  apply wp_closed h
  refine wp_handle.mpr (wp_bind.mpr (wp_readCall.mpr fun b w hb => ?_))
  rcases h.head n _ b w hb with ⟨hup, size, rfl⟩ | ⟨hdown, e, rfl⟩
  · exact wp_pure.mpr (congrArg Except.ok hup.symm)
  · exact wp_pure.mpr (congrArg Except.ok hdown.symm)

lemma wp_preflight_behaves (h : Behaves heads streams k answers) (targets : List String) :
    wp answers (fun r _ => (∃ pre n post, targets = pre ++ n :: post ∧ (∀ m ∈ pre, heads m = false) ∧ heads n = true ∧
        r = .ok (n, n :: post)) ∨
      (∀ m ∈ targets, heads m = false) ∧ r = .error (.vault noneContacted)) (preflightReadTarget k targets) p := by
  induction targets generalizing p with
  | nil => exact wp_raise.mpr (Or.inr ⟨by simp, rfl⟩)
  | cons n targets ih =>
    refine wp_bind.mpr (wp_readCall.mpr fun b w hb => ?_)
    cases h.connect n _ b w hb
    refine wp_bind.mpr (wp_mono ?_ (wp_answersHead_behaves h n))
    rintro r q rfl
    cases hn : heads n with
    | true => exact wp_pure.mpr (Or.inl ⟨[], n, targets, rfl, by simp, hn, rfl⟩)
    | false =>
      refine wp_mono ?_ ih
      rintro r q' (⟨pre, m, post, rfl, hpre, hm, hr⟩ | ⟨hnone, hr⟩)
      · exact Or.inl ⟨n :: pre, m, post, rfl, List.forall_mem_cons.mpr ⟨hn, hpre⟩, hm, hr⟩
      · exact Or.inr ⟨List.forall_mem_cons.mpr ⟨hn, hnone⟩, hr⟩

lemma wp_streamFrom_behaves (h : Behaves heads streams k answers) (last : Bool) (n : String) :
    wp answers (fun r _ => (streams n = true ∧ r = .ok true) ∨ streams n = false ∧
      ((last = false ∧ r = .ok false) ∨ last = true ∧ ∃ e, r = .error e)) (streamFrom k last n) p := by
  refine wp_bind.mpr (wp_readCall.mpr fun b w hb => ?_)
  cases h.connect n _ b w hb
  apply wp_closed h
  refine wp_bind.mpr (wp_request.mpr fun d w' hd => ?_)
  refine wp_bind.mpr (wp_mono ?_ (wp_remarkAll Sent.chunk d.chunks _))
  intro r q hq
  cases r with
  | error e => exact hq.elim
  | ok _ =>
    rw [Post.seq_ok]
    rcases h.stream n _ d w' hd with ⟨hup, hend⟩ | ⟨hdown, hnone, e, hend, hcaught⟩
    · rw [hend]
      exact wp_pure.mpr (Or.inl ⟨hup, rfl⟩)
    · rw [hend]
      refine wp_ite.mpr ⟨fun ⟨_, _, hlast⟩ => wp_pure.mpr (Or.inr ⟨hdown, Or.inl ⟨hlast, rfl⟩⟩), fun hraise => ?_⟩
      refine wp_raise.mpr (Or.inr ⟨hdown, Or.inr ⟨?_, _, rfl⟩⟩)
      cases last with
      | true => rfl
      | false => exact absurd ⟨hcaught, hnone, rfl⟩ hraise

lemma wp_body_behaves (h : Behaves heads streams k answers) (n : String) (targets : List String) :
    wp answers (fun r _ => r = .ok () ↔ ∃ m ∈ n :: targets, streams m = true) (body k (n :: targets)) p := by
  induction targets generalizing n p with
  | nil =>
    refine wp_bind.mpr (wp_mono ?_ (wp_streamFrom_behaves h _ n))
    rintro r q (⟨hup, rfl⟩ | ⟨hdown, ⟨hlast, rfl⟩ | ⟨-, e, rfl⟩⟩)
    · exact wp_pure.mpr (iff_of_true rfl ⟨n, List.mem_singleton_self n, hup⟩)
    · cases hlast
    · refine iff_of_false (by simp) ?_
      rintro ⟨m, hm, hup⟩
      cases List.mem_singleton.mp hm
      cases hdown.symm.trans hup
  | cons m targets ih =>
    refine wp_bind.mpr (wp_mono ?_ (wp_streamFrom_behaves h _ n))
    rintro r q (⟨hup, rfl⟩ | ⟨hdown, ⟨-, rfl⟩ | ⟨hlast, e, rfl⟩⟩)
    · exact wp_pure.mpr (iff_of_true rfl ⟨n, List.mem_cons_self, hup⟩)
    · refine wp_mono ?_ (ih m)
      intro r q' hq'
      rw [hq']
      constructor
      · rintro ⟨j, hj, hup⟩
        exact ⟨j, List.mem_cons_of_mem _ hj, hup⟩
      · rintro ⟨j, hj, hup⟩
        rcases List.mem_cons.mp hj with rfl | hj
        · cases hdown.symm.trans hup
        · exact ⟨j, hj, hup⟩
    · cases hlast

lemma wp_getObject_behaves {name : Arg String} {db : Db} {obj : Object} {version : Version} {targets : List StorageNode}
    (htargets : readTargets name db = .ok (obj, version, targets))
    (h : Behaves heads streams (objectKey obj version) answers) (w : ρ) :
    wp answers (fun r _ => r = .ok () ↔ Reachable heads streams (targets.map StorageNode.nodeId))
      (getObject name) (Point.start db w) := by
  have hview : (Point.start db w : Point Db ρ Sent).session.view = db := rfl
  refine wp_bind.mpr (wp_query.mpr ?_)
  rw [Post.seq_ok, hview, htargets]
  refine wp_bind_lift.mpr ⟨fun found hfound => ?_, fun e he => by cases he⟩
  cases hfound
  refine wp_bind.mpr (wp_mono ?_ (wp_preflight_behaves h _))
  rintro r q (⟨pre, n, post, hsplit, hpre, hn, rfl⟩ | ⟨hnone, rfl⟩)
  · refine wp_bind.mpr (wp_remark.mpr (wp_mono ?_ (wp_body_behaves h n (n :: post))))
    intro r q' hq'
    rw [hq']
    constructor
    · rintro ⟨m, hm, hup⟩
      exact ⟨pre, n, post, hsplit, hpre, hn, m, by simpa using hm, hup⟩
    · rintro ⟨pre', n', post', hsplit', hpre', hn', m, hm, hup⟩
      have hsame : n' :: post' = n :: post := by
        have hdrop := congrArg (List.dropWhile fun m => !heads m) (hsplit.symm.trans hsplit')
        rw [List.dropWhile_append_of_pos (by simpa using hpre), List.dropWhile_append_of_pos (by simpa using hpre'),
          List.dropWhile_cons_of_neg (by simp [hn]), List.dropWhile_cons_of_neg (by simp [hn'])] at hdrop
        exact hdrop.symm
      exact ⟨m, List.mem_cons_of_mem _ (hsame ▸ hm), hup⟩
  · refine iff_of_false (by simp) ?_
    rintro ⟨pre, n, post, hsplit, -, hn, -⟩
    have hmem : n ∈ targets.map StorageNode.nodeId := hsplit ▸ List.mem_append_right _ List.mem_cons_self
    cases (hnone n hmem).symm.trans hn

end Steps

/-- A download completes exactly when the first target that answers the preflight, or one after it, can stream; that
an earlier target could stream does not help. -/
theorem download_completes_iff {ρ : Type} (serve : ∀ {β : Type}, ReadCall β → ρ → β × ρ) (heads streams : String → Bool)
    (name : Arg String) (db : Db) (w : ρ) (obj : Object) (version : Version) (targets : List StorageNode)
    (htargets : readTargets name db = .ok (obj, version, targets))
    (hnodes : Behaves heads streams (objectKey obj version) (ReadBy serve)) :
    (exec serve (getObject name) (Point.start db w)).1 = .ok () ↔
      Reachable heads streams (targets.map StorageNode.nodeId) := by
  have hserve : ∀ {β : Type} (c : ReadCall β) (w : ρ), ReadBy serve c w (serve c w).1 (serve c w).2 := fun _ _ => rfl
  exact wp_sound hserve (wp_getObject_behaves htargets hnodes w)

lemma deliverBytes_behaves (k : Key) : Behaves (fun _ => true) (fun _ => true) k (ReadBy deliverBytes) where
  connect n w b w' hb := by
    cases hb
    rfl
  close n w b w' hb := by
    cases hb
    rfl
  head n w b w' hb := by
    cases hb
    exact Or.inl ⟨rfl, 2, rfl⟩
  stream n w d w' hd := by
    cases hd
    exact Or.inl ⟨rfl, rfl⟩

theorem report_download_completes :
    (exec deliverBytes (getObject (.value "report")) (Point.start sampleDb ())).1 = .ok () ↔
      Reachable (fun _ => true) (fun _ => true) ["a"] := by
  have htargets : readTargets (.value "report") sampleDb =
      .ok ({ objectId := ⟨0⟩, name := "report", currentVersionId := some ⟨1⟩ }, sampleVersion,
        [{ nodeId := "a", address := "http://a", status := .healthy, capacityBytes := 100 }]) := by decide +kernel
  exact download_completes_iff deliverBytes (fun _ => true) (fun _ => true) (.value "report") sampleDb () _ sampleVersion _
    htargets (deliverBytes_behaves _)

section Failures

variable {sha256 : Bytes → Checksum} {payload : Bytes} {Vouched : Version → String → Prop} {quorum : ℕ} {obj : Object}
  {v : Version} {receipt : UploadReceipt} {db db' : Db} {up : String → Bool}

/-- The nodes of the receipt that are up are listed as `HEALTHY`, and so are their replicas. -/
structure Serving (up : String → Bool) (receipt : UploadReceipt) (db : Db) : Prop where
  nodes : ∀ n ∈ receipt.replicas, up n = true → ∃ node ∈ db.nodes, node.nodeId = n ∧ node.status = .healthy
  replicas : ∀ n ∈ receipt.replicas, up n = true → ∃ r ∈ db.replicas, r.versionId = receipt.versionId ∧ r.nodeId = n ∧
    r.status = .healthy

/-- If fewer nodes than a write quorum are down, one of those that hold the version is up. -/
lemma exists_up (henough : quorum ≤ receipt.replicas.length)
    (hfew : (receipt.replicas.filter fun n => !up n).length < quorum) : ∃ n ∈ receipt.replicas, up n = true := by
  by_contra hnone
  have hdown : receipt.replicas.filter (fun n => !up n) = receipt.replicas := by
    apply List.filter_eq_self.mpr
    intro n hn
    cases hup : up n with
    | true => exact absurd ⟨n, hn, hup⟩ hnone
    | false => rfl
  rw [hdown] at hfew
  omega

lemma healthyTargets_of_serving (hserving : Serving up receipt db) {n : String} (hn : n ∈ receipt.replicas)
    (hup : up n = true) : n ∈ (healthyTargets db receipt.versionId).map StorageNode.nodeId := by
  obtain ⟨node, hnode, rfl, hstatus⟩ := hserving.nodes n hn hup
  obtain ⟨r, hr, hversion, hplace, hhealthy⟩ := hserving.replicas node.nodeId hn hup
  refine List.mem_map_of_mem ?_
  rw [healthyTargets, List.mem_mergeSort, List.mem_flatMap]
  exact ⟨node, hnode, List.mem_map.mpr ⟨r, List.mem_filter.mpr ⟨hr, by simp [hplace, hversion, hhealthy, hstatus]⟩, rfl⟩⟩

lemma Uploaded.readTargets_eq (h : Uploaded sha256 payload Vouched quorum obj v receipt db)
    (hlater : StillCurrent receipt db db') {name : Arg String} (hname : normalizeObjectName name = .ok receipt.name)
    (hsome : healthyTargets db' v.versionId ≠ []) :
    readTargets name db' = .ok (obj, v, healthyTargets db' v.versionId) := by
  have hobject : findByName db' receipt.name = some obj := hlater.object.trans h.found
  have hversion : db'.version? v.versionId = some v := by
    rw [← h.named.2.1, hlater.version, h.named.2.1]
    exact h.version
  have hhead : headObject name db' = .ok (obj, some v) := by
    unfold findByName at hobject
    simp only [headObject, getLiveObject, findObject, hname, hobject, h.active, if_true, h.current, hversion, h.committed]
  unfold readTargets
  rw [hhead]
  cases ht : healthyTargets db' v.versionId with
  | nil => exact absurd ht hsome
  | cons n ns => simp only [ht]

/-- Where the same nodes answer and stream, one of them among the targets is enough. -/
lemma reachable_of_mem {targets : List String} {n : String} (hn : n ∈ targets) (hup : up n = true) :
    Reachable up up targets := by
  induction targets with
  | nil => cases hn
  | cons m targets ih =>
    cases hm : up m with
    | true => exact ⟨[], m, targets, rfl, by simp, hm, m, List.mem_cons_self, hm⟩
    | false =>
      have hrest : n ∈ targets := by
        rcases List.mem_cons.mp hn with rfl | hrest
        · cases hm.symm.trans hup
        · exact hrest
      obtain ⟨pre, j, post, rfl, hpre, hj, hstream⟩ := ih hrest
      exact ⟨m :: pre, j, post, rfl, List.forall_mem_cons.mpr ⟨hm, hpre⟩, hj, hstream⟩

end Failures

/-- An upload survives the loss of any nodes that are fewer than its write quorum: as long as the others are listed and
up, a download of the name completes and delivers the payload. -/
theorem upload_survives_failures {ρ ρ' : Type} (serve : ∀ {β : Type}, Replication.Call β → ρ → β × ρ)
    (serve' : ∀ {β : Type}, ReadCall β → ρ' → β × ρ') (disk : ρ → String → Option Dir) (disk' : ρ' → String → Option Dir)
    (sha256 : Bytes → Checksum) (cfg : String → EngineConfig) (up : String → Bool) (maxUploadBytes : Arg ℤ)
    (path : String) (temp : TempFiles) (name name' : Arg String) (pieces : List Bytes) (expected : Arg (Option ℤ))
    (policy : Option ReplicationPolicy) (db db' : Db) (w : ρ) (w' : ρ') (h : Referenced db) (receipt : UploadReceipt)
    (q : Point Db ρ Empty) (hnodes : Truthful sha256 receipt.key disk (ServedBy serve))
    (hput : exec serve (putObject sha256 maxUploadBytes path temp name (pieces.map .bytes) expected policy)
      (Point.start db w) = (.ok receipt, q))
    (hkept : ∀ n d, disk q.world n = some d → disk' w' n = some d)
    (hlater : StillCurrent receipt q.session.durable db')
    (hnodes' : Streaming cfg receipt.key disk' (ReadBy serve')) (hup : Behaves up up receipt.key (ReadBy serve'))
    (hserving : Serving up receipt db')
    (hfew : (receipt.replicas.filter fun n => !up n).length < (policy.getD defaultPolicy).writeQuorum)
    (hname : normalizeObjectName name' = normalizeObjectName name) :
    (exec serve' (getObject name') (Point.start db' w')).1 = .ok () ∧ ∃ (chunks : List Bytes) (content : Bytes),
      (exec serve' (getObject name') (Point.start db' w')).2.notes =
        .headers ⟨pieces.flatten.length, receipt.versionId, receipt.versionNumber, sha256 pieces.flatten⟩ ::
          chunks.map .chunk ∧ chunks.flatten = content ∧
      (content = pieces.flatten ∨ Collision sha256 content pieces.flatten) := by
  have hserve : ∀ {β : Type} (c : Replication.Call β) (w : ρ), ServedBy serve c w (serve c w).1 (serve c w).2 :=
    fun _ _ => rfl
  have hserve' : ∀ {β : Type} (c : ReadCall β) (w : ρ'), ReadBy serve' c w (serve' c w).1 (serve' c w).2 :=
    fun _ _ => rfl
  have hend := wp_sound hserve
    (wp_putObject_promised hnodes maxUploadBytes path temp name (pieces.map .bytes) expected policy w h)
  rw [hput] at hend
  have hpromised := hend rfl
  obtain ⟨pieces', -, hn, obj, v, hreceipt⟩ := id hpromised
  obtain ⟨n, hn', hn_up⟩ := exists_up hreceipt.enough.1 hfew
  have htarget := healthyTargets_of_serving hserving hn' hn_up
  rw [hreceipt.named.2.1] at htarget
  have htargets := hreceipt.readTargets_eq hlater (hname.trans hn)
    (fun hnone => by rw [hnone] at htarget; cases htarget)
  have hkey : objectKey obj v = receipt.key := by
    rw [objectKey, UploadReceipt.key, hreceipt.named.1, hreceipt.named.2.1]
  have hcompletes := (wp_sound hserve' (wp_getObject_behaves htargets (hkey ▸ hup) w')).mpr
    (reachable_of_mem htarget hn_up)
  have hdown := wp_sound hserve' (wp_getObject (hnodes'.stays w') name' db' w' fun _ _ hd => hd)
  rcases hpromised.received hkept hlater hnodes' hname hdown with ⟨-, e, he⟩ | ⟨chunks, content, hsent, hsame, -, hwhole⟩
  · cases hcompletes.symm.trans he
  · exact ⟨hcompletes, chunks, content, hsent, hwhole hcompletes, hsame⟩

theorem two_bytes_survive :
    ∃ q, exec (serveAttempts fun _ => holding)
        (putObject plainHash (.value 9) "/tmp/u" [] (.value "report") ([[1, 2]].map .bytes) (.value none) (some solePolicy))
        (Point.start oneNodeDb fun _ => 0) = (.ok soleReceipt, q) ∧
      (exec deliverBytes (getObject (.value "report")) (Point.start q.session.durable ())).1 = .ok () := by
  have hreturns : (exec (serveAttempts fun _ => holding)
      (putObject plainHash (.value 9) "/tmp/u" [] (.value "report") ([[1, 2]].map .bytes) (.value none) (some solePolicy))
      (Point.start oneNodeDb fun _ => 0)).1 = .ok soleReceipt := by decide +kernel
  have hserving : Serving (fun _ => true) soleReceipt (exec (serveAttempts fun _ => holding)
      (putObject plainHash (.value 9) "/tmp/u" [] (.value "report") ([[1, 2]].map .bytes) (.value none) (some solePolicy))
      (Point.start oneNodeDb fun _ => 0)).2.session.durable := by
    constructor
    · decide +kernel
    · decide +kernel
  revert hserving
  cases hrun : exec (serveAttempts fun _ => holding)
      (putObject plainHash (.value 9) "/tmp/u" [] (.value "report") ([[1, 2]].map .bytes) (.value none) (some solePolicy))
      (Point.start oneNodeDb fun _ => 0) with
  | mk r q =>
    intro hserving
    rw [hrun] at hreturns
    obtain rfl : r = .ok soleReceipt := hreturns
    exact ⟨q, rfl, (upload_survives_failures (serveAttempts fun _ => holding) deliverBytes (fun _ _ => some soleDir)
      (fun _ _ => some soleDir) plainHash (fun _ => smallEngine) (fun _ => true) (.value 9) "/tmp/u" [] (.value "report")
      (.value "report") [[1, 2]] (.value none) (some solePolicy) oneNodeDb q.session.durable (fun _ => 0) ()
      oneNodeDb_referenced soleReceipt q holding_truthful hrun (fun _ _ hd => hd) (stillCurrent_refl _ _)
      deliverBytes_streaming (deliverBytes_behaves _) hserving (by decide) rfl).1⟩

end Vault.Gateway
