import Vault.Lib.Rules
import Vault.Metadata.Effects
import Vault.Metadata.ReplicaEvidence
import Vault.Storage.Client
import Vault.Storage.Wire

/-! What may be held against a replica. The world is the record of the `VERIFY` calls and of what the client made
of their answers; a row may become `CORRUPTED` only when the record holds an answer of its node that differs
from the version. -/

namespace Vault.Integrity

open Vault.Common Vault.Metadata Vault.Storage Vault.Lib Vault.Lib.Script

structure Report where
  nodeId : String
  versionId : UUID
  answer : Except ClientError Blob

def blobOf (v : VerifiedObject) : Blob := ⟨v.checksum, v.sizeBytes, v.valid⟩

/-- What `verify_object(raise_on_invalid=False)` comes to: the transport fails, or a response is read. -/
def VerifyAnswer (b : Except ClientError Blob) : Prop :=
  (∃ e, b = .error e ∧ e.kind = .unavailable) ∨
    ∃ k response, b = (NodeClient.readReport false k response).map blobOf

/-- Each `VERIFY` may be answered in any way and is recorded; nothing is said of other requests. -/
def recorded : ∀ {β : Type}, Request β → List Report → β → List Report → Prop
  | _, .verify n i, log, b, log' => VerifyAnswer b ∧ log' = log ++ [⟨n, i, b⟩]
  | _, .delete _ _, log, _, log' => log' = log
  | _, .stream _ _, log, _, log' => log' = log
  | _, .put _ _, log, _, log' => log' = log
  | _, .poll _, log, _, log' => log' = log
  | _, .now, log, _, log' => log' = log
  | _, .enqueue _ _, log, _, log' => log' = log

lemma recorded_grows {β : Type} {q : Request β} {log log' : List Report} {b : β} (h : recorded q log b log') :
    log ⊆ log' := by
  cases q with
  | verify n i =>
    rw [h.2]
    exact List.subset_append_left _ _
  | _ =>
    have h : log' = log := h
    rw [h]
    exact List.Subset.refl _

/-- The computation blames its failure on something else than the stored bytes. -/
def Blameless {α : Type} (x : Except ClientError α) : Prop := ∀ e, x = .error e → e.kind ≠ .integrity

section Blameless

variable {α β : Type}

lemma blameless_ok (a : α) : Blameless (.ok a : Except ClientError α) := fun _ h => by cases h

lemma blameless_error {e : ClientError} (h : e.kind ≠ .integrity) : Blameless (.error e : Except ClientError α) :=
  fun _ he => by
    cases he
    exact h

lemma Blameless.bind {x : Except ClientError α} {f : α → Except ClientError β} (hx : Blameless x)
    (hf : ∀ a, Blameless (f a)) : Blameless (x >>= f) := by
  cases x with
  | error e => exact blameless_error (hx e rfl)
  | ok a => exact hf a

lemma Blameless.map {x : Except ClientError α} (hx : Blameless x) (f : α → β) : Blameless (x.map f) := by
  cases x with
  | error e => exact blameless_error (hx e rfl)
  | ok a => exact blameless_ok _

lemma blameless_protocol (message : String) :
    Blameless (.error (NodeClient.protocolError message) : Except ClientError α) := blameless_error (by simp [NodeClient.protocolError])

end Blameless

/-- The client raises its integrity error for nothing but a report that says `valid: false`. -/
lemma blameless_readReport (k : Key) (response : HttpResponse) : Blameless (NodeClient.readReport false k response) := by
  have hstatus : Blameless (NodeClient.raiseForResponse response.status) := by
    unfold NodeClient.raiseForResponse
    split_ifs
    · exact blameless_ok _
    all_goals exact blameless_error (by simp [NodeClient.protocolError])
  have hjson : Blameless (NodeClient.jsonObject response.body) := by
    unfold NodeClient.jsonObject
    split
    · exact blameless_protocol _
    · exact blameless_protocol _
    · exact blameless_ok _
  have hverified : ∀ payload, Blameless (NodeClient.requireVerified payload) := by
    intro payload
    unfold NodeClient.requireVerified
    split
    · exact blameless_protocol _
    · exact blameless_ok _
    · exact blameless_protocol _
  have hvalid : ∀ payload, Blameless (NodeClient.validFlag payload) := by
    intro payload
    unfold NodeClient.validFlag
    split
    · exact blameless_ok _
    · exact blameless_ok _
    · exact blameless_protocol _
  have hstring : ∀ payload name, Blameless (NodeClient.requiredString payload name) := by
    intro payload name
    unfold NodeClient.requiredString
    split
    · split_ifs
      · exact blameless_protocol _
      · exact blameless_ok _
    · exact blameless_protocol _
  have hint : ∀ payload name, Blameless (NodeClient.requiredNonnegativeInt payload name) := by
    intro payload name
    unfold NodeClient.requiredNonnegativeInt
    split
    · exact blameless_ok _
    · exact blameless_protocol _
  have hchecksum : ∀ payload name, Blameless (NodeClient.requiredChecksum payload name) := by
    intro payload name
    unfold NodeClient.requiredChecksum
    split
    · next s _ =>
      cases parseChecksum? s with
      | none => exact blameless_protocol _
      | some c => exact blameless_ok _
    · exact blameless_protocol _
  unfold NodeClient.readReport
  refine hstatus.bind fun _ => ?_
  split_ifs
  · exact blameless_protocol _
  refine hjson.bind fun payload => (hverified payload).bind fun _ => (hvalid payload).bind fun valid =>
    (hstring payload _).bind fun _ => (hstring payload _).bind fun _ => (hint payload _).bind fun _ =>
    (hchecksum payload _).bind fun _ => ?_
  split_ifs with hids hraise
  · exact blameless_protocol _
  · exact absurd hraise.2 (by decide)
  · exact blameless_ok _

lemma VerifyAnswer.blameless {b : Except ClientError Blob} (h : VerifyAnswer b) : Blameless b := by
  rcases h with ⟨e, rfl, he⟩ | ⟨k, response, rfl⟩
  · exact blameless_error (by rw [he]; decide)
  · exact (blameless_readReport k response).map _

/-- The node of the replica answered a `VERIFY` of its version with `valid` false, or with a checksum or a size
that is not the version's. -/
def Condemned (db : Db) (log : List Report) (r : Replica) : Prop :=
  ∃ v ∈ db.version? r.versionId, ∃ b, ⟨r.nodeId, r.versionId, .ok b⟩ ∈ log ∧ ¬b.Matches v

/-- The row carries the checksum and the size of its version. -/
def Evident (db : Db) (r : Replica) : Prop :=
  ∃ v ∈ db.version? r.versionId, r.checksum = some v.checksum ∧ r.sizeBytes = some v.sizeBytes

structure EvidenceInv (db : Db) : Prop where
  ids : (db.replicas.map Replica.replicaId).Nodup
  fresh : ∀ r ∈ db.replicas, r.replicaId.n < db.nextId
  evidence : ∀ r ∈ db.replicas, r.status = .healthy → Evident db r

/-- Since the tables were `before`, replicas became `CORRUPTED` only on evidence. -/
structure Honest (before : Db) (log : List Report) (db : Db) : Prop where
  inv : EvidenceInv db
  versions : db.versions = before.versions
  nextId : before.nextId ≤ db.nextId
  placed : ∀ r ∈ db.replicas, r.replicaId.n < before.nextId →
    ∃ old ∈ before.replicas, old.replicaId = r.replicaId ∧ old.place = r.place
  corrupted : ∀ r ∈ db.replicas, r.status = .corrupted →
    (∃ old ∈ before.replicas, old.replicaId = r.replicaId ∧ old.status = .corrupted) ∨ Condemned before log r

lemma Honest.start {db : Db} (h : EvidenceInv db) : Honest db [] db where
  inv := h
  versions := rfl
  nextId := le_rfl
  placed r hr _ := ⟨r, hr, rfl, rfl⟩
  corrupted r hr hs := Or.inl ⟨r, hr, rfl, hs⟩

section Changes

variable {before db : Db} {log log' : List Report}

lemma Condemned.mono {r : Replica} (h : Condemned before log r) (hlog : log ⊆ log') : Condemned before log' r := by
  obtain ⟨v, hv, b, hmem, hb⟩ := h
  exact ⟨v, hv, b, hlog hmem, hb⟩

lemma Condemned.of_place {r s : Replica} (h : Condemned before log r) (hp : s.place = r.place) :
    Condemned before log s := by
  obtain ⟨v, hv, b, hmem, hb⟩ := h
  obtain ⟨hi, hn⟩ := Prod.mk.inj hp
  exact ⟨v, hi ▸ hv, b, hi ▸ hn ▸ hmem, hb⟩

lemma Honest.mono (h : Honest before log db) (hlog : log ⊆ log') : Honest before log' db :=
  { h with corrupted := fun r hr hs => (h.corrupted r hr hs).imp_right fun hc => hc.mono hlog }

lemma Honest.version? (h : Honest before log db) (i : UUID) : db.version? i = before.version? i := by
  unfold Db.version?
  rw [h.versions]

lemma Evident.frame {db' : Db} {r : Replica} (h : Evident db r) (hv : db'.versions = db.versions) : Evident db' r := by
  unfold Evident Db.version? at *
  rwa [hv]

/-- The replica table stays as it is. -/
lemma Honest.frame (h : Honest before log db) {db' : Db} (hr : db'.replicas = db.replicas)
    (hv : db'.versions = db.versions) (hn : db.nextId ≤ db'.nextId) : Honest before log db' where
  inv :=
    { ids := hr ▸ h.inv.ids
      fresh := fun r hm => (h.inv.fresh r (hr ▸ hm)).trans_le hn
      evidence := fun r hm hs => (h.inv.evidence r (hr ▸ hm) hs).frame hv }
  versions := hv.trans h.versions
  nextId := h.nextId.trans hn
  placed r hm := h.placed r (hr ▸ hm)
  corrupted r hm := h.corrupted r (hr ▸ hm)

/-- A row is rewritten in its place. -/
lemma Honest.amend (h : Honest before log db) (i : UUID) {f : Replica → Replica}
    (hid : ∀ r, (f r).replicaId = r.replicaId) (hplace : ∀ r, (f r).place = r.place)
    (hrow : ∀ r ∈ db.replicas, r.replicaId = i →
      ((f r).status = .healthy → Evident db (f r)) ∧
        ((f r).status = .corrupted → r.status = .corrupted ∨ Condemned before log r)) :
    Honest before log (db.amendReplica i f) := by
  have hmem : ∀ r ∈ (db.amendReplica i f).replicas, ∃ s ∈ db.replicas, r.replicaId = s.replicaId ∧ r.place = s.place ∧
      (r.status = .healthy → Evident db r) ∧
        (r.status = .corrupted → s.status = .corrupted ∨ Condemned before log s) := by
    intro r hr
    obtain ⟨s, hs, rfl⟩ := Table.mem_amend.mp hr
    refine ⟨s, hs, ?_⟩
    split_ifs with hk
    · exact ⟨hid s, hplace s, hrow s hs hk⟩
    · exact ⟨rfl, rfl, h.inv.evidence s hs, Or.inl⟩
  refine ⟨⟨Table.nodup_amend hid h.inv.ids, fun r hr => ?_, fun r hr hs => ?_⟩, h.versions, h.nextId,
    fun r hr hlt => ?_, fun r hr hc => ?_⟩
  · obtain ⟨s, hs, he, -⟩ := hmem r hr
    rw [he]
    exact h.inv.fresh s hs
  · obtain ⟨_, _, -, -, hev, -⟩ := hmem r hr
    exact (hev hs).frame rfl
  · obtain ⟨s, hs, he, hp, -⟩ := hmem r hr
    obtain ⟨old, hold, hoid, hop⟩ := h.placed s hs (he ▸ hlt)
    exact ⟨old, hold, hoid.trans he.symm, hop.trans hp.symm⟩
  · obtain ⟨s, hs, he, hp, -, hcond⟩ := hmem r hr
    rcases hcond hc with hold | hcond
    · rcases h.corrupted s hs hold with ⟨old, hold, hoid, hos⟩ | hcond
      · exact Or.inl ⟨old, hold, hoid.trans he.symm, hos⟩
      · exact Or.inr (hcond.of_place hp)
    · exact Or.inr (hcond.of_place hp)

lemma Honest.insert (h : Honest before log db) (i : UUID) (n : String) : Honest before log (insertReplica i n db) := by
  have hmem : ∀ r, r ∈ (insertReplica i n db).replicas ↔
      r ∈ db.replicas ∨ r = { replicaId := db.newUuid, versionId := i, nodeId := n } := by
    intro r
    simp [insertReplica]
  have hnew : ∀ r ∈ db.replicas, r.replicaId ≠ db.newUuid := by
    intro r hr he
    have hlt := h.inv.fresh r hr
    rw [he] at hlt
    exact lt_irrefl _ hlt
  refine ⟨⟨?_, fun r hr => ?_, fun r hr hs => ?_⟩, h.versions, h.nextId.trans (Nat.le_succ _), fun r hr hlt => ?_,
    fun r hr hc => ?_⟩
  · rw [insertReplica, List.map_append, List.nodup_append]
    refine ⟨h.inv.ids, by simp, ?_⟩
    rintro a ha b hb rfl
    obtain ⟨r, hr, rfl⟩ := List.mem_map.mp ha
    simp only [List.map_cons, List.map_nil, List.mem_singleton] at hb
    exact hnew r hr hb
  · rcases (hmem r).mp hr with hr | rfl
    · exact (h.inv.fresh r hr).trans (Nat.lt_succ_self _)
    · exact Nat.lt_succ_self _
  · rcases (hmem r).mp hr with hr | rfl
    · exact (h.inv.evidence r hr hs).frame rfl
    · cases hs
  · rcases (hmem r).mp hr with hr | rfl
    · exact h.placed r hr hlt
    · exact absurd (h.nextId.trans_lt' hlt) (lt_irrefl _)
  · rcases (hmem r).mp hr with hr | rfl
    · exact h.corrupted r hr hc
    · cases hc

lemma Honest.delete (h : Honest before log db) (i : UUID) : Honest before log (deleteReplica i db) where
  inv :=
    { ids := Table.nodup_remove h.inv.ids i
      fresh := fun r hr => h.inv.fresh r (Table.mem_remove.mp hr).1
      evidence := fun r hr hs => (h.inv.evidence r (Table.mem_remove.mp hr).1 hs).frame rfl }
  versions := h.versions
  nextId := h.nextId
  placed r hr := h.placed r (Table.mem_remove.mp hr).1
  corrupted r hr := h.corrupted r (Table.mem_remove.mp hr).1

end Changes

end Vault.Integrity
