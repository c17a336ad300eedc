import Vault.Metadata.Models

/-! What the storage nodes hold and how a call to one of them ends. A node keeps at most one blob
for a version and never overwrites it; a verification measures what is there, and raises for
invalid data unless it is told not to. A call may fail
before the node acts, or after it acted when only the answer is lost. -/

namespace Vault.Storage

open Vault.Common Vault.Metadata

structure Blob where
  checksum : Checksum
  sizeBytes : ℕ
  valid : Bool := true
  deriving DecidableEq, Repr

def Blob.Matches (b : Blob) (v : Version) : Prop :=
  b.valid = true ∧ b.checksum = v.checksum ∧ b.sizeBytes = v.sizeBytes

instance (b : Blob) (v : Version) : Decidable (b.Matches v) :=
  inferInstanceAs (Decidable (_ ∧ _))

abbrev Store := String → UUID → Option Blob

def Store.set (s : Store) (nodeId : String) (versionId : UUID) (b : Option Blob) : Store :=
  fun n i => if n = nodeId ∧ i = versionId then b else s n i

inductive Fault
  | refused (e : ClientError)
  | lost (e : ClientError)
  deriving DecidableEq, Repr

def notFound : ClientError := ⟨.objectNotFound, "Object/version was not found on the storage node."⟩

def alreadyExists : ClientError :=
  ⟨.objectAlreadyExists, "Object/version already exists on the storage node."⟩

def integrity (message : String) : ClientError := ⟨.integrity, message⟩

def invalidData : ClientError :=
  integrity "Storage node reported that stored data failed integrity verification."

def deleteObject (fault : Option Fault) (nodeId : String) (versionId : UUID) (s : Store) :
    Except ClientError Unit × Store :=
  match fault with
  | none => (.ok (), s.set nodeId versionId none)
  | some (.refused e) => (.error e, s)
  | some (.lost e) => (.error e, s.set nodeId versionId none)

def putObject (fault : Option Fault) (nodeId : String) (versionId : UUID) (received : Blob)
    (s : Store) : Except ClientError Unit × Store :=
  match fault with
  | some (.refused e) => (.error e, s)
  | fault =>
    match s nodeId versionId with
    | some _ => (.error alreadyExists, s)
    | none =>
      match fault with
      | some (.lost e) => (.error e, s.set nodeId versionId (some received))
      | _ => (.ok (), s.set nodeId versionId (some received))

def openStream (fault : Option Fault) (nodeId : String) (versionId : UUID) (s : Store) :
    Except ClientError Unit :=
  match fault, s nodeId versionId with
  | some (.refused e), _ => .error e
  | some (.lost e), _ => .error e
  | none, none => .error notFound
  | none, some _ => .ok ()

def measureObject (fault : Option Fault) (nodeId : String) (versionId : UUID) (s : Store) :
    Except ClientError Blob :=
  match fault, s nodeId versionId with
  | some (.refused e), _ => .error e
  | some (.lost e), _ => .error e
  | none, none => .error notFound
  | none, some b => .ok b

def raiseOnInvalid : Except ClientError Blob → Except ClientError Blob
  | .ok b => if b.valid then .ok b else .error invalidData
  | .error e => .error e

def verifyObject (fault : Option Fault) (nodeId : String) (versionId : UUID) (s : Store) :
    Except ClientError Blob :=
  raiseOnInvalid (measureObject fault nodeId versionId s)

lemma Store.set_self (s : Store) (n : String) (i : UUID) (b : Option Blob) : s.set n i b n i = b := by
  simp [Store.set]

lemma Store.set_ne {s : Store} {n m : String} {i j : UUID} {b : Option Blob} (h : (j, m) ≠ (i, n)) :
    s.set n i b m j = s m j := by
  refine if_neg ?_
  rintro ⟨rfl, rfl⟩
  exact h rfl

lemma deleteObject_store (fault : Option Fault) (n : String) (i : UUID) (s : Store) :
    (deleteObject fault n i s).2 = s ∨ (deleteObject fault n i s).2 = s.set n i none := by
  rcases fault with _ | e | e
  · exact Or.inr rfl
  · exact Or.inl rfl
  · exact Or.inr rfl

lemma deleteObject_ok {fault : Option Fault} {n : String} {i : UUID} {s s' : Store}
    (h : deleteObject fault n i s = (.ok (), s')) : s' = s.set n i none := by
  rcases fault with _ | e | e <;> cases h
  rfl

lemma putObject_store (fault : Option Fault) (n : String) (i : UUID) (b : Blob) (s : Store) :
    (putObject fault n i b s).2 = s ∨ (putObject fault n i b s).2 = s.set n i (some b) := by
  rcases fault with _ | e | e
  · simp only [putObject]
    split
    · exact Or.inl rfl
    · exact Or.inr rfl
  · exact Or.inl rfl
  · simp only [putObject]
    split
    · exact Or.inl rfl
    · exact Or.inr rfl

lemma measureObject_ok {fault : Option Fault} {n : String} {i : UUID} {s : Store} {b : Blob}
    (h : measureObject fault n i s = .ok b) : s n i = some b := by
  unfold measureObject at h
  split at h
  · cases h
  · cases h
  · cases h
  · next hb =>
    cases h
    exact hb

lemma raiseOnInvalid_ok {x : Except ClientError Blob} {b : Blob} :
    raiseOnInvalid x = .ok b ↔ x = .ok b ∧ b.valid = true := by
  cases x with
  | error e => simp [raiseOnInvalid]
  | ok b' =>
    simp only [raiseOnInvalid]
    split_ifs with hv
    · simp only [Except.ok.injEq, iff_self_and]
      rintro rfl
      exact hv
    · simp only [Except.ok.injEq, false_iff, not_and]
      rintro rfl
      exact hv

lemma verifyObject_ok {fault : Option Fault} {n : String} {i : UUID} {s : Store} {b : Blob}
    (h : verifyObject fault n i s = .ok b) : s n i = some b :=
  measureObject_ok (raiseOnInvalid_ok.mp h).1

def Backed (db : Db) (s : Store) (r : Replica) : Prop :=
  ∃ v ∈ db.version? r.versionId, ∃ b ∈ s r.nodeId r.versionId, b.Matches v

def HealthyBacked (db : Db) (s : Store) : Prop :=
  ∀ r ∈ db.replicas, r.status = .healthy → Backed db s r

instance (db : Db) (s : Store) (r : Replica) : Decidable (Backed db s r) :=
  inferInstanceAs (Decidable (∃ v ∈ db.version? r.versionId, _))

instance (db : Db) (s : Store) : Decidable (HealthyBacked db s) :=
  inferInstanceAs (Decidable (∀ r ∈ db.replicas, _))

def zeroChecksum : Checksum := ⟨List.replicate 64 0, length_zeros⟩

def sampleVersion : Version :=
  { versionId := ⟨1⟩, objectId := ⟨0⟩, versionNumber := 1, sizeBytes := 7, checksum := zeroChecksum,
    state := .committed }

def sampleBlob : Blob := { checksum := zeroChecksum, sizeBytes := 7 }

def sampleDb : Db where
  objects := [{ objectId := ⟨0⟩, name := "report", currentVersionId := some ⟨1⟩ }]
  versions := [sampleVersion]
  nodes :=
    [{ nodeId := "a", address := "http://a", status := .healthy, capacityBytes := 100 },
      { nodeId := "b", address := "http://b", status := .healthy, capacityBytes := 100 }]
  replicas :=
    [{ replicaId := ⟨2⟩, versionId := ⟨1⟩, nodeId := "a", status := .healthy,
       checksum := some zeroChecksum, sizeBytes := some 7, lastVerifiedAt := some 0 }]
  repairJobs :=
    [{ repairId := ⟨3⟩, versionId := ⟨1⟩, sourceNodeId := "a", targetNodeId := "b",
       reason := "under-replicated" }]
  nextId := 4

def sampleStore : Store := fun n i => if n = "a" ∧ i = ⟨1⟩ then some sampleBlob else none

end Vault.Storage
