import Vault.Gateway.UploadFrames

/-! An upload is all or nothing: as long as it has not returned, the durable tables are those that it found, at
whatever point it stops and whatever its nodes do. An older object is given back by the rollback that ends every
session, a new one by the deletion that the upload commits itself. -/

namespace Vault.Gateway

open Vault.Common Vault.Metadata Vault.Storage Vault.Lib Vault.Lib.Script Vault.Lib.Transaction Vault.Replication

variable {ρ : Type} {answers : ∀ {β : Type}, Replication.Call β → ρ → β → ρ → Prop} {db base : Db}
  {p : Point Db ρ Empty}

lemma wp_unlessSucceeded {α : Type} {x : Upload α} {cleanup : Upload Unit} {S : α → Point Db ρ Empty → Prop}
    {E : Failure → Point Db ρ Empty → Prop} {F : Point Db ρ Empty → Prop} (hx : wp answers (Post.seq S E) x p)
    (hc : ∀ e q, E e q → wp answers (fun _ => F) cleanup q) :
    wp answers (Post.seq S fun _ => F) (unlessSucceeded x cleanup) p := by
  refine wp_bind.mpr (wp_attempt.mpr (wp_mono ?_ hx))
  intro r q hq
  cases r with
  | ok a => exact wp_pure.mpr hq
  | error e =>
    refine wp_bind.mpr (wp_mono ?_ (hc e q hq))
    intro r' q' hq'
    cases r' with
    | ok _ => exact wp_raise.mpr hq'
    | error e' => exact hq'

/-- What the session sees when the object of the upload is at hand. -/
def Located (db : Db) (name : String) (located : Object × Bool) (view : Db) : Prop :=
  located.2 = false ∧ findByName db name = some located.1 ∧ view = db ∨
    located.2 = true ∧ findByName db name = none ∧ located.1 = { objectId := db.newUuid, name := name } ∧
      view = insertObject located.1 db

lemma normalized_again {name : Arg String} {n : String} (h : normalizeObjectName name = .ok n) :
    normalizeObjectName (.value n) = .ok n := by
  cases name with
  | illTyped => cases h
  | value s =>
    simp only [normalizeObjectName] at h ⊢
    split_ifs at h with h₁ h₂ h₃
    cases h
    rw [strip_strip, if_neg h₁, if_neg h₂, if_neg h₃]

lemma wp_findOrCreateObject {name : String} (hname : normalizeObjectName (.value name) = .ok name)
    (hstart : p.session = Session.fresh db) (hpast : p.past = []) :
    wp answers (Post.seq (fun located q => Open db q ∧ Located db name located q.session.view) fun _ q => Undone db q)
      (findOrCreateObject name) p := by
  have hopen : Open db p.look := by
    refine ⟨by rw [Point.look, hstart]; rfl, rfl, ?_⟩
    intro s w hs
    rw [Point.look, hpast] at hs
    cases hs
  have hview : p.session.view = db := by rw [hstart]; rfl
  refine wp_bind.mpr (wp_query.mpr ?_)
  rw [Post.seq_ok, hview]
  cases hfind : findByName db name with
  | some obj => exact wp_pure.mpr ⟨hopen, Or.inl ⟨rfl, hfind, hview⟩⟩
  | none =>
    have hcreate : wp answers (Post.seq (fun located q => Open db q ∧ Located db name located q.session.view)
        fun _ q => Open db q ∧ q.session.view = db)
        (do let obj ← transaction (createObject (.value name)); pure (obj, true) : Upload (Object × Bool)) p.look := by
      have hkeeps : Keeps answers (Open db)
          (do let obj ← transaction (createObject (.value name)); pure (obj, true) : Upload (Object × Bool)) :=
        keeps_bind (keeps_transaction_open _) fun _ => keeps_pure _
      have hrun : wp answers (Post.seq (fun located q => Located db name located q.session.view)
          fun _ q => q.session.view = db)
          (do let obj ← transaction (createObject (.value name)); pure (obj, true) : Upload (Object × Bool)) p.look := by
        refine wp_bind.mpr (wp_transaction_view ?_ ?_)
        · intro o s ho
          change (createObject (.value name)).run p.session.view = _ at ho
          rw [hview] at ho
          simp only [createObject, hname, Tx.run_bind, Tx.run_check, Tx.run_read, Tx.run_require, Tx.run_write,
            Tx.run_pure, Prod.mk.injEq] at ho
          obtain ⟨_, _, ⟨h₁, rfl⟩, _, _, ⟨rfl, rfl⟩, _, _, ⟨-, -, rfl⟩, _, _, ⟨-, rfl⟩, rfl, hs⟩ := ho
          cases h₁
          exact wp_pure.mpr (Or.inr ⟨rfl, hfind, rfl, hs⟩)
        · intro e s _ hs
          exact hs.trans hview
      refine wp_mono ?_ (wp_and (hkeeps p.look hopen) hrun)
      intro r q hq
      cases r with
      | ok located => exact hq
      | error e => exact hq
    refine wp_handle.mpr (wp_mono ?_ hcreate)
    intro r q hq
    cases r with
    | ok located => exact hq
    | error e =>
      refine wp_ite.mpr ⟨fun _ => ?_, fun _ => wp_raise.mpr (undone_of_open hq.1)⟩
      refine wp_bind.mpr (wp_query.mpr (wp_bind.mpr (wp_demand.mpr ⟨fun obj hobj => ?_, fun _ => ?_⟩)))
      · rw [hq.2, hfind] at hobj
        cases hobj
      · exact undone_of_open hq.1.look

section Storing

variable {policy : ReplicationPolicy} {v : Version} {expected : Arg (Option ℤ)} {payload : Payload}
  {Told : Version → String → Except Failure ReplicaWriteResult → ρ → Prop}

/-- What a replication that began on `base` has made of what the session sees. -/
def Replicated (policy : ReplicationPolicy) (v : Version) (expected : Arg (Option ℤ))
    (Told : String → Except Failure ReplicaWriteResult → Prop) (base : Db) (r : Except Failure ReplicationResult)
    (view : Db) : Prop :=
  (∃ e, r = .error e) ∧ view = base ∨
    ∃ factor quorum, Asked policy (.value none) (.value none) factor quorum ∧
      factor = (chosen base v factor).length ∧ Ended v (chosen base v factor) quorum expected Told base r view

/-- The one commit of an upload: what the session sees becomes durable, and nothing was before. -/
structure Committed (db : Db) (q : Point Db ρ Empty) : Prop where
  session : q.session = Session.fresh q.session.view
  past : ∀ s w, Event.state s w ∈ q.past → s.durable = db ∨ s = q.session

def UploadReceipt.of (policy : ReplicationPolicy) (obj : Object) (w : Version) (result : ReplicationResult) :
    UploadReceipt :=
  { objectId := obj.objectId, name := obj.name, versionId := w.versionId, versionNumber := w.versionNumber,
    sizeBytes := w.sizeBytes, checksum := w.checksum, replicas := result.healthyNodeIds,
    replicationFactor := policy.factor, writeQuorum := policy.writeQuorum }

lemma wp_storeVersion (obj : Object) (hopen : Open db p) (hview : p.session.view = base)
    (hprep : ∀ factor, Prepared v (chosen base v factor) base) (ht : ∀ payload, Tells answers v payload (Told v)) :
    wp answers (Post.seq (fun receipt q => Committed db q ∧ ∃ result w, receipt = UploadReceipt.of policy obj w result ∧
        q.session.view.version? v.versionId = some w ∧ w.state = .committed ∧
        Replicated policy v expected (fun n x => Told v n x q.world) base (.ok result) q.session.view)
      fun _ q => Open db q ∧ ∃ r, Replicated policy v expected (fun n x => Told v n x q.world) base r q.session.view)
      (storeVersion policy obj v payload expected) p := by
  subst hview
  refine wp_bind.mpr (wp_mono ?_ (wp_and (keeps_replicateVersion_open policy _ (.value payload) _ _ expected p hopen)
    (wp_replicateVersion policy (.value payload) (.value none) (.value none) expected hprep ht)))
  rintro r q ⟨hq, hend⟩
  cases r with
  | error e => exact ⟨hq, _, hend⟩
  | ok result =>
    refine wp_bind.mpr (wp_query.mpr (wp_bind.mpr (wp_demand.mpr ⟨fun w hw => ?_, fun _ => ⟨hq.look, _, hend⟩⟩)))
    refine wp_bind.mpr (wp_require.mpr ⟨fun hcommitted => ?_, fun _ => ⟨hq.look, _, hend⟩⟩)
    refine wp_bind.mpr (wp_save.mpr (wp_pure.mpr ⟨⟨rfl, ?_⟩, result, w, rfl, hw, hcommitted, hend⟩))
    intro s w' hs
    rcases List.mem_append.mp hs with hs | hs
    · exact Or.inl (hq.past s w' hs)
    · cases List.mem_singleton.mp hs
      exact Or.inr rfl

lemma provisional_insert (db : Db) (o : Object) (i : UUID) :
    Provisional db o.objectId i (insertObject o db) where
  added := ⟨[o], [], [], db.nextId + 1, by simp [insertObject, addRows], by simp, by simp, by simp⟩

/-- Whatever a replication does, it is the provisional version, its replicas and its object that it touches. -/
lemma Replicated.provisional {o : Object} {T : String → Except Failure ReplicaWriteResult → Prop}
    {r : Except Failure ReplicationResult} {view : Db} (hown : v.objectId = o.objectId)
    (hfresh : Fresh db o.objectId v.versionId) (hv : base.version? v.versionId = some v)
    (hbase : base = insertVersion v (insertObject o db)) (h : Replicated policy v expected T base r view) :
    Provisional db o.objectId v.versionId view := by
  have hrows : ∀ rows : List Replica, (∀ row ∈ rows, row.versionId = v.versionId) →
      Provisional db o.objectId v.versionId (withRows base rows) := by
    intro rows hid
    refine ⟨[o], [v], rows, base.nextId + rows.length, ?_, by simp, by simpa using hown,
      fun row hrow => ⟨hid row hrow, by simp⟩⟩
    rw [hbase]
    rfl
  have hplain : Provisional db o.objectId v.versionId base := by
    refine ⟨[o], [v], [], base.nextId, ?_, by simp, by simpa using hown, by simp⟩
    rw [hbase]
    simp [insertVersion, insertObject, addRows]
  rcases h with ⟨-, rfl⟩ | ⟨factor, quorum, -, -, hended⟩
  · exact hplain
  · cases hended with
    | unplaced e => exact hplain
    | crashed hs e he => exact hrows _ fun row hrow => hs.versionId hrow
    | missed hs he hq =>
      exact (hrows _ fun row hrow => hs.versionId hrow).amendVersion hfresh.versions (fun _ => rfl) fun _ => rfl
    | refused hs he hq now e hc => exact hrows _ fun row hrow => hs.versionId hrow
    | @committed pairs rows hs he hq now w view hc =>
      obtain ⟨-, v', -, -, -, hi, hv', -, -, -, -, -, -, rfl⟩ := commitVersion_ok hc
      have hid : v.versionId = v'.versionId := Arg.value.inj hi
      obtain rfl : v = v' := Option.some.inj (hv.symm.trans (hid ▸ hv'))
      have hversion : Provisional db o.objectId v.versionId
          ((withRows base rows).amendVersion v.versionId (Version.commit now)) :=
        (hrows _ fun row hrow => hs.versionId hrow).amendVersion hfresh.versions (fun _ => rfl) fun _ => rfl
      rw [hown]
      exact hversion.amendObject hfresh.objects fun _ => rfl

/-- What an upload that returns has made: the version of the staged bytes, committed with its replicas. -/
structure Stored (policy : ReplicationPolicy) (name : String) (staged : StagedUpload) (expected : Arg (Option ℤ))
    (Told : Version → String → Except Failure ReplicaWriteResult → Prop) (db : Db) (receipt : UploadReceipt)
    (view : Db) : Prop where
  made : ∃ located view₀ v base result w, Located db name located view₀ ∧
    (prepareVersion located.1 staged expected).run view₀ = .ok (v, base) ∧
    Prepared v (chosen base v policy.factor) base ∧ receipt = UploadReceipt.of policy located.1 w result ∧
    view.version? v.versionId = some w ∧ w.state = .committed ∧
    Replicated policy v expected (Told v) base (.ok result) view

lemma prepared_insertVersion {view₀ : Db} (hfresh : ∀ w ∈ view₀.versions, w.versionId ≠ v.versionId)
    (hids : (view₀.replicas.map Replica.replicaId).Nodup) (hrows : ∀ r ∈ view₀.replicas, r.replicaId.n < view₀.nextId)
    (hnodes : ∀ n ∈ view₀.nodes, strip n.nodeId = n.nodeId) (hs : v.state = .preparing) (factor : ℕ) :
    Prepared v (chosen (insertVersion v view₀) v factor) (insertVersion v view₀) where
  version := Table.lookup_concat_self (Table.lookup_eq_none.mpr hfresh)
  preparing := hs
  replicaIds := hids
  fresh r hr := (hrows r hr).trans (Nat.lt_succ_self _)
  stripped n hn := hnodes n (Placement.mem_candidates hn).1

/-- What is known of the session and of the identifiers when the version of an upload is made. -/
lemma Located.ready (h : Referenced db) {name : String} {located : Object × Bool} {view₀ : Db}
    (hl : Located db name located view₀) :
    (∀ w ∈ view₀.versions, w.versionId ≠ view₀.newUuid) ∧ view₀.replicas = db.replicas ∧ view₀.nodes = db.nodes ∧
      db.nextId ≤ view₀.nextId ∧ (located.2 = true → view₀ = insertObject located.1 db ∧
        Fresh db located.1.objectId view₀.newUuid) := by
  rcases hl with ⟨hfound, -, rfl⟩ | ⟨-, -, ho, rfl⟩
  · refine ⟨(h.fresh le_rfl le_rfl).versions, rfl, rfl, le_rfl, fun hc => ?_⟩
    rw [hfound] at hc
    cases hc
  · refine ⟨(h.fresh le_rfl (Nat.le_succ db.nextId)).versions, rfl, rfl, Nat.le_succ _, fun _ => ⟨rfl, ?_⟩⟩
    rw [ho]
    exact h.fresh le_rfl (Nat.le_succ db.nextId)

lemma wp_prepareVersion {name : String} {staged : StagedUpload} {located : Object × Bool} {view₀ : Db}
    (h : Referenced db) (hopen : Open db p) (hview : p.session.view = view₀) (hl : Located db name located view₀) :
    wp answers (Post.seq (fun v q => Open db q ∧
        (prepareVersion located.1 staged expected).run view₀ = .ok (v, q.session.view)) fun _ q => Undone db q)
      (unlessSucceeded (transaction (prepareVersion located.1 staged expected)) (clearUp located.1 located.2 none)) p := by
  obtain ⟨-, -, -, -, hcreated⟩ := hl.ready h
  subst hview
  have hrun : wp answers (Post.seq (fun v q =>
      (prepareVersion located.1 staged expected).run p.session.view = .ok (v, q.session.view))
      fun _ q => q.session.view = p.session.view) (transaction (prepareVersion located.1 staged expected)) p :=
    wp_transaction_view (fun v s hs => hs) fun e s _ hs => hs
  have hboth : wp answers (Post.seq (fun v q => Open db q ∧
      (prepareVersion located.1 staged expected).run p.session.view = .ok (v, q.session.view))
      fun _ q => Open db q ∧ q.session.view = p.session.view) (transaction (prepareVersion located.1 staged expected)) p := by
    refine wp_mono ?_ (wp_and (keeps_transaction_open _ p hopen) hrun)
    intro r q hq
    cases r with
    | ok v => exact hq
    | error e => exact hq
  apply wp_unlessSucceeded hboth
  intro e q hq
  apply wp_clearUp (i := p.session.view.newUuid) located.1 located.2 none hq.1 (fun v hv => by cases hv)
  intro hc
  obtain ⟨hinsert, hfresh⟩ := hcreated hc
  refine ⟨hfresh, ?_⟩
  rw [hq.2, hinsert]
  exact provisional_insert db located.1 _

lemma wp_storeUpload {name : String} {staged : StagedUpload} (h : Referenced db)
    (hname : normalizeObjectName (.value name) = .ok name) (ht : ∀ v payload, Tells answers v payload (Told v))
    (hstart : p.session = Session.fresh db) (hpast : p.past = []) :
    wp answers (Post.seq (fun receipt q => Committed db q ∧
        Stored policy name staged expected (fun v n x => Told v n x q.world) db receipt q.session.view)
      fun _ q => Undone db q) (storeUpload policy name staged payload expected) p := by
  refine wp_bind.mpr (wp_mono ?_ (wp_findOrCreateObject hname hstart hpast))
  intro r q hq
  cases r with
  | error e => exact hq
  | ok located =>
    obtain ⟨hopen, hlocated⟩ := hq
    obtain ⟨hversions, hrows, hnodes, hnext, hcreated⟩ := hlocated.ready h
    refine wp_bind.mpr (wp_mono ?_ (wp_prepareVersion h hopen rfl hlocated))
    intro r q' hq'
    cases r with
    | error e => exact hq'
    | ok v =>
      obtain ⟨hopen', hrun⟩ := hq'
      obtain ⟨obj', hi, hobj, -, hid, hown, hs, -, hbase⟩ := createVersion_ok hrun
      have ho : obj'.objectId = located.1.objectId := (Arg.value.inj hi).symm
      have hprep : ∀ factor, Prepared v (chosen q'.session.view v factor) q'.session.view := by
        intro factor
        rw [hbase]
        apply prepared_insertVersion (hid ▸ hversions) (hrows ▸ h.wellFormed.replicaIds) _ (hnodes ▸ h.nodes.stripped) hs
        intro r hr
        exact (h.wellFormed.freshReplica r (hrows ▸ hr)).trans_le hnext
      have hclear : ∀ (e : Failure) (q'' : Point Db ρ Empty), (Open db q'' ∧ ∃ r, Replicated policy v expected
          (fun n x => Told v n x q''.world) q'.session.view r q''.session.view) →
          wp answers (fun _ => Undone db) (clearUp located.1 located.2 (some v)) q'' := by
        rintro e q'' ⟨hopen'', r, hreplicated⟩
        apply wp_clearUp (i := v.versionId) located.1 located.2 (some v) hopen'' (fun w hw => by cases hw; rfl)
        intro hc
        obtain ⟨hinsert, hfresh⟩ := hcreated hc
        refine ⟨hid ▸ hfresh, ?_⟩
        exact hreplicated.provisional (hown.trans ho) (hid ▸ hfresh) (hprep 0).version (hinsert ▸ hbase)
      refine wp_mono ?_ (wp_unlessSucceeded (wp_storeVersion located.1 hopen' rfl hprep (ht v)) hclear)
      intro r q'' hq''
      cases r with
      | error e => exact hq''
      | ok receipt =>
        obtain ⟨hcommitted, result, w, hreceipt, hw, hstate, hreplicated⟩ := hq''
        exact ⟨hcommitted, located, q.session.view, v, q'.session.view, result, w, hlocated, hrun, hprep _, hreceipt, hw,
          hstate, hreplicated⟩

lemma tells_nothing : Tells answers v payload fun _ _ _ => True where
  written node p := wp_mono (fun _ _ _ => trivial) (wp_writeOne_faithful v payload node p)
  stable _ _ _ _ _ _ _ _ := trivial

end Storing

section Uploads

variable {Told : Version → String → Except Failure ReplicaWriteResult → ρ → Prop}

lemma wp_putObject (sha256 : Bytes → Checksum) (maxUploadBytes : Arg ℤ) (path : String) (temp : TempFiles)
    (name : Arg String) (chunks : List BodyItem) (expected : Arg (Option ℤ)) (policy : Option ReplicationPolicy) (w : ρ)
    (h : Referenced db) (ht : ∀ v payload, Tells answers v payload (Told v)) :
    wp answers (Post.seq (fun receipt q => Committed db q ∧ ∃ n staged temp', normalizeObjectName name = .ok n ∧
        stageUpload sha256 path maxUploadBytes chunks temp = (.ok staged, temp') ∧
        Stored (policy.getD defaultPolicy) n staged expected (fun v n x => Told v n x q.world) db receipt q.session.view)
      fun _ q => Undone db q)
      (putObject sha256 maxUploadBytes path temp name chunks expected policy) (Point.start db w) := by
  have hstart : Undone db (Point.start db w : Point Db ρ Empty) := ⟨sameTables_refl db, fun _ _ hs => by cases hs⟩
  refine wp_bind_lift.mpr ⟨fun n hn => ?_, fun e _ => hstart⟩
  cases hstaged : stageUpload sha256 path maxUploadBytes chunks temp with
  | mk result temp' =>
    refine wp_bind_lift.mpr ⟨fun staged hresult => ?_, fun e _ => hstart⟩
    obtain rfl : result = .ok staged := hresult
    refine wp_mono ?_ (wp_storeUpload h (normalized_again hn) ht rfl rfl)
    intro r q hq
    cases r with
    | error e => exact hq
    | ok receipt => exact ⟨hq.1, n, staged, temp', hn, rfl, hq.2⟩

end Uploads

def ServedBy (serve : ∀ {β : Type}, Replication.Call β → ρ → β × ρ) {β : Type} (q : Replication.Call β) (w : ρ) (b : β)
    (w' : ρ) : Prop := serve q w = (b, w')

/-- An upload is all or nothing. Every state that it leaves behind has the old tables in its durable part, but for the
last state of an upload that returns; and if it raises, it ends with the old tables, whatever the nodes have done. -/
theorem upload_all_or_nothing {ρ : Type} (serve : ∀ {β : Type}, Replication.Call β → ρ → β × ρ)
    (sha256 : Bytes → Checksum) (maxUploadBytes : Arg ℤ) (path : String) (temp : TempFiles) (name : Arg String)
    (chunks : List BodyItem) (expected : Arg (Option ℤ)) (policy : Option ReplicationPolicy) (db : Db) (w : ρ)
    (h : Referenced db) (r : Except Failure UploadReceipt) (q : Point Db ρ Empty)
    (hrun : exec serve (putObject sha256 maxUploadBytes path temp name chunks expected policy) (Point.start db w) = (r, q)) :
    (∀ session w', Event.state session w' ∈ q.past → SameTables db session.durable ∨
      (∃ receipt, r = .ok receipt) ∧ session = q.session) ∧
    ∀ e, r = .error e → SameTables db q.session.durable := by
  have hserve : ∀ {β : Type} (c : Replication.Call β) (w : ρ), ServedBy serve c w (serve c w).1 (serve c w).2 :=
    fun _ _ => rfl
  have hend := wp_sound hserve (wp_putObject sha256 maxUploadBytes path temp name chunks expected policy w h
    fun v payload => tells_nothing (v := v))
  rw [hrun] at hend
  cases r with
  | error e => exact ⟨fun s w' hs => Or.inl (hend.past s w' hs), fun _ _ => hend.durable⟩
  | ok receipt =>
    obtain ⟨hcommitted, -⟩ := hend
    refine ⟨fun s w' hs => ?_, fun e he => by cases he⟩
    rcases hcommitted.past s w' hs with hold | hlast
    · exact Or.inl (hold ▸ sameTables_refl db)
    · exact Or.inr ⟨⟨receipt, rfl⟩, hlast⟩

def twoNodesDb : Db := { nodes := sampleDb.nodes }

lemma twoNodesDb_referenced : Referenced twoNodesDb where
  versions := VersionInv.empty.frame rfl rfl le_rfl
  replicas := by decide
  wellFormed := ⟨by decide, by decide, by decide, by decide⟩
  nodes := ⟨by decide, by decide⟩

/-- No node can be reached. -/
def unreachable : Replication.Attempt :=
  { put := .error (.client ⟨.unavailable, "timeout"⟩), verify := .error .illTyped }

/-- An upload that expects another current version takes back the object that it had made. -/
theorem conflicting_upload_taken_back :
    ∃ e q, exec (serveAttempts fun _ => unreachable)
        (putObject plainHash (.value 9) "/tmp/u" [] (.value "report") [.bytes [1, 2]] (.value (some 5)) (some pairPolicy))
        (Point.start twoNodesDb fun _ => 0) = (.error e, q) ∧ SameTables twoNodesDb q.session.durable := by
  have hraises : (exec (serveAttempts fun _ => unreachable)
      (putObject plainHash (.value 9) "/tmp/u" [] (.value "report") [.bytes [1, 2]] (.value (some 5)) (some pairPolicy))
      (Point.start twoNodesDb fun _ => 0)).1.isOk = false := by decide +kernel
  cases hrun : exec (serveAttempts fun _ => unreachable)
      (putObject plainHash (.value 9) "/tmp/u" [] (.value "report") [.bytes [1, 2]] (.value (some 5)) (some pairPolicy))
      (Point.start twoNodesDb fun _ => 0) with
  | mk r q =>
    have hatomic := upload_all_or_nothing (serveAttempts fun _ => unreachable) plainHash (.value 9) "/tmp/u" []
      (.value "report") [.bytes [1, 2]] (.value (some 5)) (some pairPolicy) twoNodesDb (fun _ => 0) twoNodesDb_referenced
      r q hrun
    rw [hrun] at hraises
    cases r with
    | ok receipt => cases hraises
    | error e => exact ⟨e, q, rfl, hatomic.2 e rfl⟩

end Vault.Gateway
