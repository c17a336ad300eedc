import Vault.Storage.Client
import Vault.Storage.Reports

/-! What the control plane learns when it asks a node to verify a version without raising on invalid data, for
every content of the node's disk. -/

namespace Vault.Storage

open Vault.Common Vault.Metadata Vault.Lib

/-- The identifiers under which a version is stored. -/
def versionKey (v : Version) : Key := ⟨toString v.objectId, toString v.versionId⟩

def VerifiedObject.blob (o : VerifiedObject) : Blob := ⟨o.checksum, o.sizeBytes, o.valid⟩

def measureRemote (sha256 : Bytes → Checksum) (k : Key) (d : Option Dir) : Except ClientError Blob :=
  (NodeClient.readReport false k (NodeServer.verifyObject (verify sha256 k d))).map VerifiedObject.blob

/-- The stored bytes are there, can be verified, and are those of the version. -/
def Intact (sha256 : Bytes → Checksum) (v : Version) (d : Option Dir) : Prop :=
  ∃ r, verify sha256 (versionKey v) d = .ok r ∧ r.valid = true ∧ r.checksum = some v.checksum ∧
    r.sizeBytes = v.sizeBytes

/-- A directory whose verification ends with a measurement that reaches the control plane. -/
def Dir.Measurable (k : Key) (d : Dir) : Prop :=
  d.linked = false ∧ ∃ fields, d.metadata = .document (.dict fields) ∧ d.listing = none ∧ ¬d.Unparsed ∧
    ¬d.Blocked k fields ∧ d.NamesEncodable

lemma mem_digits {c : Char} {u : UUID} (h : c ∈ u.digits) : c ∈ hexDigits := by
  obtain ⟨i, -, rfl⟩ := List.mem_map.mp h
  have hmod : u.n / 16 ^ (31 - i) % 16 < 16 := Nat.mod_lt _ (by decide)
  have hall : ∀ d < 16, (Nat.toDigits 16 d).headD '0' ∈ hexDigits := by decide
  exact hall _ hmod

lemma toList_uuid (u : UUID) : (toString u).toList = u.digits.take 8 ++ '-' :: (u.digits.drop 8).take 4 ++
    '-' :: (u.digits.drop 12).take 4 ++ '-' :: (u.digits.drop 16).take 4 ++ '-' :: u.digits.drop 20 :=
  String.toList_ofList

lemma length_uuid (u : UUID) : (toString u).toList.length = 36 := by
  have hlength : u.digits.length = 32 := by simp [UUID.digits]
  rw [toList_uuid]
  simp [hlength]

lemma mem_uuid {c : Char} {u : UUID} (h : c ∈ (toString u).toList) : c ∈ '-' :: hexDigits := by
  rw [toList_uuid] at h
  simp only [List.mem_append, List.mem_cons] at h ⊢
  rcases h with ((((h | h | h) | h | h) | h | h) | h | h)
  all_goals
    first
      | exact Or.inl h
      | exact Or.inr (mem_digits (List.mem_of_mem_take h))
      | exact Or.inr (mem_digits (List.mem_of_mem_drop (List.mem_of_mem_take h)))
      | exact Or.inr (mem_digits (List.mem_of_mem_drop h))

lemma validId_uuid (u : UUID) : ValidId (toString u) := by
  have hlength := length_uuid u
  have hno : ∀ c, c ∉ '-' :: hexDigits → c ∉ (toString u).toList := fun c hc hm => hc (mem_uuid hm)
  refine ⟨?_, by rw [hlength]; decide, ?_, ?_, hno _ (by decide), hno _ (by decide), hno _ (by decide)⟩
  all_goals
    intro he
    rw [he] at hlength
    cases hlength

lemma versionKey_valid (v : Version) : (versionKey v).Valid := ⟨validId_uuid _, validId_uuid _⟩

variable {sha256 : Bytes → Checksum} {k : Key} {d : Option Dir}

/-- A measurement is what a report says that was made and could be sent. -/
lemma measureRemote_ok_iff (hk : k.Valid) {b : Blob} :
    measureRemote sha256 k d = .ok b ↔ ∃ r, verify sha256 k d = .ok r ∧ AllEncodable r.errors ∧
      r.checksum = some b.checksum ∧ r.sizeBytes = b.sizeBytes ∧ r.valid = b.valid := by
  rw [measureRemote, readReport_eq_seen hk fun r hr => (verify_about hr).2]
  cases hv : verify sha256 k d with
  | error e => cases e <;> simp [seen, Except.map]
  | ok r =>
    by_cases he : AllEncodable r.errors
    · cases hc : r.checksum with
      | none => simp [seen, received, he, hc, Except.map]
      | some c =>
        simp only [seen, he, if_true, received, hc, Bool.false_eq_true, and_false, if_false, Except.map,
          VerifiedObject.blob, Except.ok.injEq, exists_eq_left', true_and, Option.some.injEq]
        constructor
        · rintro rfl
          exact ⟨rfl, rfl, rfl⟩
        · rintro ⟨rfl, hs, hvalid⟩
          rw [hs, hvalid]
    · simp [seen, he, Except.map]

lemma intact_iff {v : Version} :
    Intact sha256 v d ↔ ∃ b, measureRemote sha256 (versionKey v) d = .ok b ∧ b.Matches v := by
  have hk := versionKey_valid v
  simp only [measureRemote_ok_iff hk, Intact, Blob.Matches]
  constructor
  · rintro ⟨r, hr, hvalid, hc, hs⟩
    refine ⟨⟨v.checksum, v.sizeBytes, true⟩, ⟨r, hr, ?_, hc, hs, hvalid⟩, rfl, rfl, rfl⟩
    rw [valid_errors hr hvalid]
    exact allEncodable_nil
  · rintro ⟨b, ⟨r, hr, -, hc, hs, hvalid⟩, hb, hbc, hbs⟩
    exact ⟨r, hr, hvalid.trans hb, by rw [hc, hbc], hs.trans hbs⟩

end Vault.Storage
