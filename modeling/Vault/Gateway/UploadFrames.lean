import Vault.Gateway.Upload
import Vault.Lib.OpenTransaction
import Vault.Replication.Quorum

/-! What an upload adds to what its session sees, and how it is taken back. Until its one commit an upload only adds
rows: its object, its version, and replicas of that version. Deleting the object takes all of them along. -/

namespace Vault.Gateway

open Vault.Common Vault.Metadata Vault.Storage Vault.Lib Vault.Lib.Script Vault.Lib.Transaction Vault.Replication

/-- The tables hold the same rows; only identifiers may have been used up. -/
def SameTables (db db' : Db) : Prop := db' = { db with nextId := db'.nextId }

instance (db db' : Db) : Decidable (SameTables db db') := inferInstanceAs (Decidable (_ = _))

lemma sameTables_refl (db : Db) : SameTables db db := rfl

/-- What the schema promises of the identifiers: they are unique, those in use are not handed out again, and a replica
refers to a version. -/
structure Referenced (db : Db) : Prop where
  versions : VersionInv db
  replicas : ∀ r ∈ db.replicas, r.versionId.n < db.nextId
  wellFormed : db.WellFormed
  nodes : db.NodeKeys

def addRows (db : Db) (objs : List Object) (vers : List Version) (rows : List Replica) (n : ℕ) : Db :=
  { db with
    objects := db.objects ++ objs
    versions := db.versions ++ vers
    replicas := db.replicas ++ rows
    nextId := n }

/-- The rows that an upload has added so far. -/
structure Provisional (db : Db) (objectId versionId : UUID) (view : Db) : Prop where
  added : ∃ objs vers rows n, view = addRows db objs vers rows n ∧
    (∀ o ∈ objs, o.objectId = objectId) ∧ (∀ v ∈ vers, v.versionId = versionId ∧ v.objectId = objectId) ∧
    ∀ r ∈ rows, r.versionId = versionId ∧ vers ≠ []

section Rows

variable {db view : Db} {o v : UUID}

lemma amend_added {ρ κ : Type} [DecidableEq κ] {key : ρ → κ} {k : κ} {f : ρ → ρ} {old new : List ρ}
    (hold : ∀ r ∈ old, key r ≠ k) : Table.amend key k f (old ++ new) = old ++ Table.amend key k f new := by
  have happend : Table.amend key k f (old ++ new) = Table.amend key k f old ++ Table.amend key k f new :=
    List.map_append
  rw [happend, Table.amend_of_not_mem hold]

lemma Provisional.amendVersion (h : Provisional db o v view) (hv : ∀ w ∈ db.versions, w.versionId ≠ v)
    {f : Version → Version} (hid : ∀ w, (f w).versionId = w.versionId) (ho : ∀ w, (f w).objectId = w.objectId) :
    Provisional db o v (view.amendVersion v f) := by
  obtain ⟨objs, vers, rows, n, rfl, hobjs, hvers, hrows⟩ := h.added
  refine ⟨objs, Table.amend Version.versionId v f vers, rows, n, ?_, hobjs, ?_, ?_⟩
  · simp only [Db.amendVersion, addRows, amend_added hv]
  · intro w hw
    obtain ⟨w', hw', rfl⟩ := Table.mem_amend.mp hw
    split_ifs
    · rw [hid, ho]
      exact hvers w' hw'
    · exact hvers w' hw'
  · intro r hr
    refine ⟨(hrows r hr).1, ?_⟩
    rw [ne_eq, ← List.length_eq_zero_iff, Table.length_amend, List.length_eq_zero_iff]
    exact (hrows r hr).2

lemma Provisional.amendObject (h : Provisional db o v view) (ho : ∀ p ∈ db.objects, p.objectId ≠ o)
    {f : Object → Object} (hid : ∀ p, (f p).objectId = p.objectId) : Provisional db o v (view.amendObject o f) := by
  obtain ⟨objs, vers, rows, n, rfl, hobjs, hvers, hrows⟩ := h.added
  refine ⟨Table.amend Object.objectId o f objs, vers, rows, n, ?_, ?_, hvers, hrows⟩
  · simp only [Db.amendObject, addRows, amend_added ho]
  · intro p hp
    obtain ⟨p', hp', rfl⟩ := Table.mem_amend.mp hp
    split_ifs
    · rw [hid]
      exact hobjs p' hp'
    · exact hobjs p' hp'

/-- Deleting the object takes away what the upload has added, and nothing else. -/
lemma Provisional.deleteCascade (h : Provisional db o v view) (ho : ∀ p ∈ db.objects, p.objectId ≠ o)
    (hown : ∀ w ∈ db.versions, w.objectId ≠ o) (hfree : ∀ w ∈ db.versions, w.versionId ≠ v)
    (href : ∀ r ∈ db.replicas, r.versionId ≠ v) : SameTables db (deleteCascade o view) := by
  obtain ⟨objs, vers, rows, n, rfl, hobjs, hvers, hrows⟩ := h.added
  have hobjects : (db.objects ++ objs).filter (fun p => p.objectId ≠ o) = db.objects := by
    rw [List.filter_append, List.filter_eq_self.mpr fun p hp => decide_eq_true (ho p hp),
      List.filter_eq_nil_iff.mpr fun p hp => by simp [hobjs p hp], List.append_nil]
  have hversions : (db.versions ++ vers).filter (fun w => w.objectId ≠ o) = db.versions := by
    rw [List.filter_append, List.filter_eq_self.mpr fun w hw => decide_eq_true (hown w hw),
      List.filter_eq_nil_iff.mpr fun w hw => by simp [(hvers w hw).2], List.append_nil]
  have hold : ∀ r ∈ db.replicas, ¬OwnedBy (addRows db objs vers rows n) o r.versionId := by
    rintro r hr ⟨w, hw, howner⟩
    rcases List.mem_append.mp (Table.lookup_mem hw) with hw' | hw'
    · exact hown w hw' howner
    · exact href r hr ((Table.lookup_key hw).symm.trans (hvers w hw').1)
  have hnew : ∀ r ∈ rows, OwnedBy (addRows db objs vers rows n) o r.versionId := by
    intro r hr
    obtain ⟨hrv, hne⟩ := hrows r hr
    obtain ⟨w, hw⟩ := List.exists_mem_of_ne_nil vers hne
    cases hlook : Table.lookup Version.versionId r.versionId (db.versions ++ vers) with
    | none => exact absurd ((hvers w hw).1.trans hrv.symm) (Table.lookup_eq_none.mp hlook w (List.mem_append_right _ hw))
    | some w' =>
      refine ⟨w', hlook, ?_⟩
      rcases List.mem_append.mp (Table.lookup_mem hlook) with hw' | hw'
      · exact absurd ((Table.lookup_key hlook).trans hrv) (hfree w' hw')
      · exact (hvers w' hw').2
  have hreplicas : (db.replicas ++ rows).filter (fun r => ¬OwnedBy (addRows db objs vers rows n) o r.versionId) =
      db.replicas := by
    rw [List.filter_append, List.filter_eq_self.mpr fun r hr => decide_eq_true (hold r hr),
      List.filter_eq_nil_iff.mpr fun r hr => by simpa using hnew r hr, List.append_nil]
  have hobjs' : (addRows db objs vers rows n).objects = db.objects ++ objs := rfl
  have hvers' : (addRows db objs vers rows n).versions = db.versions ++ vers := rfl
  have hrows' : (addRows db objs vers rows n).replicas = db.replicas ++ rows := rfl
  rw [SameTables, Vault.Gateway.deleteCascade, hobjs', hvers', hrows', hobjects, hversions, hreplicas]
  rfl

end Rows

section Program

variable {ρ : Type} {answers : ∀ {β : Type}, Replication.Call β → ρ → β → ρ → Prop} {d : Db} {v : Version}

lemma keeps_writeOne_open (payload : Payload) (node : StorageNode) :
    Keeps answers (Open d) (writeOne v payload node : Upload ReplicaWriteResult) :=
  keeps_writeOne (fun _ _ _ w _ hp => hp.turn w) v payload node

lemma keeps_settleReplica_open (pair : Replica × Except Failure ReplicaWriteResult) :
    Keeps answers (Open d) (settleReplica pair) := by
  obtain ⟨replica, e | result⟩ := pair
  · exact keeps_bind (keeps_transaction_open _) fun _ => keeps_pure _
  · unfold settleReplica
    apply keeps_ite
    · intro _
      split
      · exact keeps_bind (keeps_request_open _) fun _ => keeps_bind (keeps_transaction_open _) fun _ => keeps_pure _
      · exact keeps_raise _
    · exact fun _ => keeps_bind (keeps_transaction_open _) fun _ => keeps_pure _

lemma keeps_settleVersion_open (i : UUID) (quorum : ℕ) (expected : Arg (Option ℤ)) (nodes : List StorageNode)
    (results : List ReplicaWriteResult) : Keeps answers (Open d) (settleVersion i quorum expected nodes results) := by
  apply keeps_ite
  · exact fun _ => keeps_bind (keeps_transaction_open _) fun _ => keeps_raise _
  · exact fun _ => keeps_bind (keeps_request_open _) fun _ => keeps_bind (keeps_transaction_open _) fun _ => keeps_pure _

lemma keeps_replicateTo_open (payload : Payload) (nodes : List StorageNode) (quorum : ℕ)
    (expected : Arg (Option ℤ)) : Keeps answers (Open d) (replicateTo v payload nodes quorum expected) := by
  apply keeps_bind (keeps_transaction_open _)
  intro replicas
  apply keeps_bind (keeps_transaction_open _)
  intro _
  apply keeps_bind (keeps_forEach (fun node => keeps_attempt (keeps_writeOne_open payload node)) nodes)
  intro pending
  apply keeps_bind (keeps_forEach keeps_settleReplica_open _)
  intro results
  cases firstError pending with
  | some e => exact keeps_raise e
  | none => exact keeps_settleVersion_open _ _ _ _ _

/-- Replication writes in the transaction that it is called in. -/
lemma keeps_replicateVersion_open (policy : ReplicationPolicy) (i : Arg UUID) (payloadFactory : Arg Payload)
    (factor quorum expected : Arg (Option ℤ)) :
    Keeps answers (Open d) (replicateVersion policy i payloadFactory factor quorum expected) := by
  apply keeps_bind (keeps_lift_open _)
  intro payload
  apply keeps_bind (keeps_lift_open _)
  intro factor
  apply keeps_bind (keeps_lift_open _)
  intro quorum
  apply keeps_bind (keeps_require _ _)
  intro _
  apply keeps_bind (keeps_lift_open _)
  intro _
  apply keeps_bind (keeps_lift_open _)
  intro versionId
  apply keeps_bind
  · apply keeps_bind keeps_query_open
    intro db
    apply keeps_bind (keeps_demand _ _)
    intro version
    exact keeps_bind (keeps_require _ _) fun _ => keeps_pure _
  · intro version
    apply keeps_bind
    · apply keeps_bind keeps_query_open
      intro db
      exact keeps_bind (keeps_require _ _) fun _ => keeps_pure _
    · exact fun nodes => keeps_replicateTo_open payload nodes quorum expected

lemma keeps_failPreparing_open (i : UUID) : Keeps answers (Open d) (failPreparing i) := by
  apply keeps_bind keeps_query_open
  intro db
  apply keeps_ite
  · intro _
    apply keeps_handle (keeps_bind (keeps_transaction_open _) fun _ => keeps_pure _)
    intro e
    cases e with
    | vault e => exact keeps_pure _
    | client e => exact keeps_raise _
    | value m => exact keeps_raise _
    | illTyped => exact keeps_raise _
    | other m => exact keeps_raise _
  · exact fun _ => keeps_pure _

/-- No row refers to these identifiers. -/
structure Fresh (db : Db) (o v : UUID) : Prop where
  objects : ∀ p ∈ db.objects, p.objectId ≠ o
  owners : ∀ w ∈ db.versions, w.objectId ≠ o
  versions : ∀ w ∈ db.versions, w.versionId ≠ v
  replicas : ∀ r ∈ db.replicas, r.versionId ≠ v

lemma Referenced.fresh {db : Db} (h : Referenced db) {m n : ℕ} (hm : db.nextId ≤ m) (hn : db.nextId ≤ n) :
    Fresh db ⟨m⟩ ⟨n⟩ where
  objects p hp he := not_lt.mpr hm ((congrArg UUID.n he).symm.trans_lt (h.versions.freshObject p hp))
  owners w hw he := not_lt.mpr hm ((congrArg UUID.n he).symm.trans_lt (h.versions.owned w hw))
  versions w hw he := not_lt.mpr hn ((congrArg UUID.n he).symm.trans_lt (h.versions.freshVersion w hw))
  replicas r hr he := not_lt.mpr hn ((congrArg UUID.n he).symm.trans_lt (h.replicas r hr))

/-- Nothing of the upload is durable, now or at any point before. -/
structure Undone (db : Db) (p : Point Db ρ Empty) : Prop where
  durable : SameTables db p.session.durable
  past : ∀ s w, Event.state s w ∈ p.past → SameTables db s.durable

lemma undone_of_open {db : Db} {p : Point Db ρ Empty} (h : Open db p) : Undone db p where
  durable := h.durable ▸ sameTables_refl db
  past s w hs := h.past s w hs ▸ sameTables_refl db

section ClearingUp

variable {db : Db} {o i : UUID} {p : Point Db ρ Empty}

lemma wp_failPreparing_provisional (hfree : ∀ w ∈ db.versions, w.versionId ≠ i)
    (h : Provisional db o i p.session.view) :
    wp answers (fun _ q => Provisional db o i q.session.view) (failPreparing i) p := by
  refine wp_bind.mpr (wp_query.mpr (wp_ite.mpr ⟨fun _ => ?_, fun _ => wp_pure.mpr h⟩))
  have htx : wp answers (fun _ q => Provisional db o i q.session.view)
      (do let _ ← transaction (failVersion (.value i)); pure ()) p.look := by
    refine wp_bind.mpr (wp_transaction_view ?_ ?_)
    · intro w s hrun
      obtain ⟨v, hi, -, -, hs⟩ := failVersion_ok hrun
      cases hi
      refine wp_pure.mpr ?_
      change Provisional db o v.versionId s.view
      rw [hs]
      exact h.amendVersion hfree (fun _ => rfl) fun _ => rfl
    · intro e s _ hs
      change Provisional db o i s.view
      rw [hs]
      exact h
  refine wp_handle.mpr (wp_mono ?_ htx)
  intro r q hq
  cases r with
  | ok _ => exact hq
  | error e =>
    cases e with
    | vault e => exact wp_pure.mpr hq
    | client e => exact wp_raise.mpr hq
    | value m => exact wp_raise.mpr hq
    | illTyped => exact wp_raise.mpr hq
    | other m => exact wp_raise.mpr hq

lemma wp_deleteCreated (hfresh : Fresh db o i) (hopen : Open db p) (h : Provisional db o i p.session.view) :
    wp answers (fun _ q => Undone db q) (deleteCreated o) p := by
  refine wp_bind.mpr (wp_query.mpr (wp_ite.mpr ⟨fun _ => ?_, fun _ => wp_pure.mpr (undone_of_open hopen.look)⟩))
  have hsame : SameTables db (deleteCascade o p.session.view) :=
    h.deleteCascade hfresh.objects hfresh.owners hfresh.versions hfresh.replicas
  refine wp_save.mpr ⟨hsame, ?_⟩
  intro s w hs
  rcases List.mem_append.mp hs with hs | hs
  · exact (undone_of_open hopen).past s w hs
  · cases List.mem_singleton.mp hs
    exact hsame

/-- Whatever an upload has added, clearing up leaves none of it durable. -/
lemma wp_clearUp (obj : Object) (created : Bool) (version : Option Version) (hopen : Open db p)
    (hversion : ∀ v ∈ version, v.versionId = i)
    (h : created = true → Fresh db obj.objectId i ∧ Provisional db obj.objectId i p.session.view) :
    wp answers (fun _ q => Undone db q) (clearUp obj created version) p := by
  have hdelete : ∀ q : Point Db ρ Empty, Open db q →
      (created = true → Fresh db obj.objectId i ∧ Provisional db obj.objectId i q.session.view) →
      wp answers (fun _ q => Undone db q) (if created then deleteCreated obj.objectId else pure () : Upload Unit) q := by
    intro q hq hadded
    cases created with
    | false => exact wp_pure.mpr (undone_of_open hq)
    | true => exact wp_deleteCreated (hadded rfl).1 hq (hadded rfl).2
  cases version with
  | none => exact hdelete p hopen h
  | some v =>
    obtain rfl := hversion v rfl
    have hfail : wp answers (fun _ q => Open db q ∧
        (created = true → Fresh db obj.objectId v.versionId ∧ Provisional db obj.objectId v.versionId q.session.view))
        (failPreparing v.versionId) p := by
      cases created with
      | false => exact wp_mono (fun _ q hq => ⟨hq, fun hc => by cases hc⟩) (keeps_failPreparing_open v.versionId p hopen)
      | true =>
        obtain ⟨hfresh, hadded⟩ := h rfl
        exact wp_mono (fun _ q hq => ⟨hq.1, fun _ => ⟨hfresh, hq.2⟩⟩)
          (wp_and (keeps_failPreparing_open v.versionId p hopen) (wp_failPreparing_provisional hfresh.versions hadded))
    refine wp_bind.mpr (wp_mono ?_ hfail)
    intro r q hq
    cases r with
    | ok _ => exact hdelete q hq.1 hq.2
    | error e => exact undone_of_open hq.1

end ClearingUp

end Program

end Vault.Gateway
