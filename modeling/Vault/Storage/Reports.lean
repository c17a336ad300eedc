import Mathlib
import Vault.Storage.Wire

/-! What becomes of a verification report on its way to the control plane. The client asks for a checksum in
every report; the engine has none to give when it cannot read the metadata or list the directory. -/

namespace Vault.Storage

open Vault.Common Vault.Lib

lemma hexValue?_hexDigit (d : Fin 16) : hexValue? (hexDigit d.val) = some d := by
  revert d
  decide

lemma parseDigits_hexDigits (ds : List (Fin 16)) : parseDigits (ds.map (fun d => hexDigit d.val)) = some ds := by
  induction ds with
  | nil => rfl
  | cons d ds ih => simp only [List.map_cons, parseDigits, hexValue?_hexDigit, ih]

lemma parseChecksum?_toString (c : Checksum) : parseChecksum? (toString c) = some c := by
  have hlist : (toString c).toList = c.digits.map (fun d => hexDigit d.val) := String.toList_ofList
  have hdigits : parseDigits (toString c).toList = some c.digits := by
    rw [hlist, parseDigits_hexDigits]
  have hlength : (toString c).toList.length = 64 := by
    rw [hlist, List.length_map, c.length_eq]
  unfold parseChecksum?
  rw [dif_pos hlength]
  split
  · next ds hd =>
    cases hdigits.symm.trans hd
    rfl
  · next hd => cases hdigits.symm.trans hd

lemma validateIdentifiers_ok {k : Key} (hk : k.Valid) : NodeClient.validateIdentifiers k = .ok () := by
  obtain ⟨⟨h₁, -, h₂, h₃, h₄⟩, ⟨h₅, -, h₆, h₇, h₈⟩⟩ := hk
  have ho : NodeClient.ValidIdentifier k.objectId := ⟨h₁, h₂, h₃, h₄⟩
  have hv : NodeClient.ValidIdentifier k.versionId := ⟨h₅, h₆, h₇, h₈⟩
  simp [NodeClient.validateIdentifiers, ho, hv]

/-- What the client makes of a report that arrives. -/
def received (raiseOnInvalid : Bool) (r : VerificationResult) : Except ClientError VerifiedObject :=
  match r.checksum with
  | none => .error (NodeClient.protocolError "Storage node response is missing a valid SHA-256 checksum.")
  | some c =>
    if ¬r.valid ∧ raiseOnInvalid then .error NodeClient.invalidStoredData
    else .ok ⟨r.objectId, r.versionId, r.sizeBytes, c, r.valid⟩

lemma readReport_verifyResponse {k : Key} (hk : k.Valid) {r : VerificationResult} (ho : r.objectId = k.objectId)
    (hv : r.versionId = k.versionId) (raiseOnInvalid : Bool) :
    NodeClient.readReport raiseOnInvalid k ⟨200, .json (.dict (NodeServer.verifyResponse r))⟩ =
      received raiseOnInvalid r := by
  have hon : k.objectId ≠ "" := hk.1.1
  have hvn : k.versionId ≠ "" := hk.2.1
  cases hc : r.checksum with
  | none =>
    simp [NodeClient.readReport, NodeClient.raiseForResponse, NodeClient.jsonObject, NodeClient.requireVerified,
      NodeClient.validFlag, NodeClient.requiredString, NodeClient.requiredNonnegativeInt,
      NodeClient.requiredChecksum, NodeServer.verifyResponse, Fields.get, List.lookup, received, hc, ho, hv, hon,
      hvn, bind, Except.bind]
  | some c =>
    simp [NodeClient.readReport, NodeClient.raiseForResponse, NodeClient.jsonObject, NodeClient.requireVerified,
      NodeClient.validFlag, NodeClient.requiredString, NodeClient.requiredNonnegativeInt,
      NodeClient.requiredChecksum, NodeServer.verifyResponse, Fields.get, List.lookup, received, hc, ho, hv, hon,
      hvn, bind, Except.bind, parseChecksum?_toString]

section Encoding

@[simp] lemma encodable_ofString (s : String) : (Text.ofString s).Encodable := by
  intro c hc
  obtain ⟨a, -, rfl⟩ := List.mem_map.mp hc
  rfl

@[simp] lemma encodable_append {t u : Text} : (Text.Encodable (t ++ u)) ↔ t.Encodable ∧ u.Encodable :=
  List.forall_mem_append

def AllEncodable (ts : List Text) : Prop := ∀ t ∈ ts, t.Encodable

instance (ts : List Text) : Decidable (AllEncodable ts) := inferInstanceAs (Decidable (∀ t ∈ ts, _))

@[simp] lemma allEncodable_nil : AllEncodable [] := by simp [AllEncodable]

@[simp] lemma allEncodable_singleton {t : Text} : AllEncodable [t] ↔ t.Encodable := by simp [AllEncodable]

@[simp] lemma allEncodable_append {ts us : List Text} :
    AllEncodable (ts ++ us) ↔ AllEncodable ts ∧ AllEncodable us :=
  List.forall_mem_append

/-- A chunk name that is read as an index consists of the prefix and digits. -/
lemma encodable_of_parseChunkIndex {name : Text} {index : ℕ} (hp : name.HasChunkPrefix)
    (h : parseChunkIndex name = some (some index)) : name.Encodable := by
  obtain ⟨suffix, rfl⟩ := hp
  have hdrop : (chunkPrefix.map Sum.inl ++ suffix : Text).drop chunkPrefix.length = suffix :=
    List.drop_left' (by simp)
  unfold parseChunkIndex at h
  simp only [hdrop] at h
  split_ifs at h with hc
  · refine encodable_append.mpr ⟨?_, ?_⟩
    · intro c hm
      obtain ⟨a, -, rfl⟩ := List.mem_map.mp hm
      rfl
    · intro c hm
      have hdigit := List.all_eq_true.mp hc.2 c hm
      cases c with
      | inl a => rfl
      | inr b => cases hdigit
  · cases h

lemma strayEntry_eq_none (count : Option ℕ) (f : Findings) (name : Text) :
    strayEntry count f name = none ↔ name.HasChunkPrefix ∧ parseChunkIndex name = none := by
  unfold strayEntry
  split_ifs with hp
  · split <;> simp_all
    split_ifs <;> simp
  · simp [hp]

lemma strayEntry_encodable {count : Option ℕ} {f g : Findings} {name : Text}
    (h : strayEntry count f name = some g) :
    AllEncodable g.errors ↔ AllEncodable f.errors ∧ (name.HasChunkPrefix → name.Encodable) := by
  unfold strayEntry at h
  split_ifs at h with hp
  · have hnamed : AllEncodable (f.errors ++ [.ofString "unexpected chunk " ++ name]) ↔
        AllEncodable f.errors ∧ (name.HasChunkPrefix → name.Encodable) := by
      simp [hp]
    split at h
    · cases h
    · cases h
      exact hnamed
    · next index n hparse =>
      split_ifs at h
      · cases h
        simp [encodable_of_parseChunkIndex hp hparse]
      · cases h
        exact hnamed
    · cases h
      exact hnamed
  · cases h
    simp [hp]

@[simp] lemma metadataInt_encodable (fields : Fields) (key : String) :
    AllEncodable (metadataInt fields key).2 := by
  unfold metadataInt
  split <;> simp

@[simp] lemma rejectInt_encodable (p : ℤ → Bool) (message : String) (n : Option ℤ) :
    AllEncodable (rejectInt p message n).2 := by
  unfold rejectInt
  split
  · split_ifs <;> simp
  · simp

@[simp] lemma expectedChecksum_encodable (fields : Fields) : AllEncodable (expectedChecksum fields).2 := by
  unfold expectedChecksum
  split
  · split_ifs <;> simp
  · simp

@[simp] lemma invalidItems_encodable (items : List Item) : AllEncodable (invalidItems items) := by
  intro t ht
  obtain ⟨p, -, rfl⟩ := List.mem_map.mp ht
  exact encodable_ofString _

@[simp] lemma expectedChunkChecksums_encodable (fields : Fields) :
    AllEncodable (expectedChunkChecksums fields).2 := by
  unfold expectedChunkChecksums
  split
  · split_ifs <;> simp
  · simp

@[simp] lemma countErrors_encodable (l : Layout) : AllEncodable (countErrors l) := by
  unfold countErrors
  rw [allEncodable_append]
  constructor
  · split
    · split_ifs <;> simp
    · simp
  · split
    · split_ifs <;> simp
    · simp

lemma readLayout_encodable (k : Key) (fields : Fields) : AllEncodable (readLayout k fields).2 := by
  have hmessage : ∀ (p : Prop) [Decidable p] (m : String), AllEncodable (if p then [] else [Text.ofString m]) := by
    intro p _ m
    split_ifs <;> simp
  simp [readLayout, hmessage]

variable {sha256 : Bytes → Checksum}

lemma blame_encodable {f : Findings} {index : ℕ} {message : String} :
    AllEncodable (f.blame index message).errors ↔ AllEncodable f.errors := by
  simp [Findings.blame]

lemma checkChunkSize_encodable {l : Layout} {index stored : ℕ} {f : Findings} :
    AllEncodable (checkChunkSize l index stored f).errors ↔ AllEncodable f.errors := by
  unfold checkChunkSize
  split
  · split_ifs
    · rfl
    · exact blame_encodable
  · rfl

lemma checkChunkDigest_encodable {l : Layout} {index : ℕ} {content : Bytes} {f : Findings} :
    AllEncodable (checkChunkDigest sha256 l index content f).errors ↔ AllEncodable f.errors := by
  unfold checkChunkDigest
  split
  · exact blame_encodable
  · split_ifs
    · rfl
    · exact blame_encodable

lemma measureFile_encodable {l : Layout} {index size : ℕ} {content : Bytes} {fault : Option String} {f : Findings} :
    AllEncodable (measureFile sha256 l index content size fault f).errors ↔ AllEncodable f.errors := by
  unfold measureFile
  cases fault with
  | none => exact checkChunkDigest_encodable.trans checkChunkSize_encodable
  | some error => exact blame_encodable.trans checkChunkSize_encodable

lemma measureChunk_eq_none (sha256 : Bytes → Checksum) (l : Layout) (d : Dir) (f : Findings) (index : ℕ) :
    measureChunk sha256 l d f index = none ↔ d.entryAt? (chunkName index) = some .inaccessible := by
  unfold measureChunk
  split <;> simp_all

lemma measureChunk_encodable {l : Layout} {d : Dir} {f g : Findings} {index : ℕ}
    (h : measureChunk sha256 l d f index = some g) : AllEncodable g.errors ↔ AllEncodable f.errors ∧ True := by
  rw [and_true]
  unfold measureChunk at h
  split at h <;> cases h
  · exact blame_encodable
  · exact blame_encodable
  · exact measureFile_encodable
  · exact blame_encodable
  · exact blame_encodable

@[simp] lemma totalErrors_encodable (l : Layout) (f : Findings) : AllEncodable (totalErrors sha256 l f) := by
  unfold totalErrors
  rw [allEncodable_append]
  constructor
  · split
    · split_ifs <;> simp
    · simp
  · split
    · split_ifs <;> simp
    · simp

end Encoding

/-- A `chunk-` entry whose six digits `int` does not read. -/
def Dir.Unparsed (d : Dir) : Prop :=
  ∃ name ∈ d.entries.map Prod.fst, name.HasChunkPrefix ∧ parseChunkIndex name = none

/-- A chunk that the metadata announces cannot be inspected. -/
def Dir.Blocked (k : Key) (fields : Fields) (d : Dir) : Prop :=
  ∃ index ∈ List.range ((readLayout k fields).1.chunkCount.getD 0), d.entryAt? (chunkName index) = some .inaccessible

def Dir.NamesEncodable (d : Dir) : Prop := ∀ name ∈ d.entries.map Prod.fst, name.HasChunkPrefix → name.Encodable

def VerificationResult.About (k : Key) (r : VerificationResult) : Prop :=
  r.objectId = k.objectId ∧ r.versionId = k.versionId

/-- How the inspection of a directory ends. -/
inductive Inspected (k : Key) (fields : Fields) (d : Dir) : Except EngineError VerificationResult → Prop
  | unlisted (r : VerificationResult) (hl : d.listing ≠ none) (hr : r.About k) (hc : r.checksum = none)
      (hv : r.valid = false) : Inspected k fields d (.ok r)
  | unparsed (message : String) (hl : d.listing = none) (hu : d.Unparsed) :
      Inspected k fields d (.error (.value message))
  | blocked (hl : d.listing = none) (hu : ¬d.Unparsed) (hb : d.Blocked k fields) :
      Inspected k fields d (.error .other)
  | measured (r : VerificationResult) (c : Checksum) (hl : d.listing = none) (hu : ¬d.Unparsed)
      (hb : ¬d.Blocked k fields) (hr : r.About k) (hc : r.checksum = some c)
      (he : AllEncodable r.errors ↔ d.NamesEncodable) (hv : r.valid = true → r.errors = []) :
      Inspected k fields d (.ok r)

lemma inspected (sha256 : Bytes → Checksum) (k : Key) (fields : Fields) (d : Dir) :
    Inspected k fields d (inspect sha256 k fields d) := by
  have hlayout := readLayout_encodable k fields
  unfold inspect
  cases hl : d.listing with
  | some error =>
    exact .unlisted _ (by simp [hl]) ⟨rfl, rfl⟩ rfl rfl
  | none =>
    dsimp only
    have hnames := foldlM_eq_none_iff (l := d.entries.map Prod.fst)
      (b := ({ errors := (readLayout k fields).2 } : Findings))
      (strayEntry_eq_none (readLayout k fields).1.chunkCount)
    cases hs : (d.entries.map Prod.fst).foldlM (strayEntry (readLayout k fields).1.chunkCount)
        ({ errors := (readLayout k fields).2 } : Findings) with
    | none => exact .unparsed _ hl (hnames.mp hs)
    | some found =>
      have hu : ¬d.Unparsed := by
        intro hu
        cases hs.symm.trans (hnames.mpr hu)
      have hchunks := foldlM_eq_none_iff (l := List.range ((readLayout k fields).1.chunkCount.getD 0)) (b := found)
        (measureChunk_eq_none sha256 (readLayout k fields).1 d)
      dsimp only
      cases hm : (List.range ((readLayout k fields).1.chunkCount.getD 0)).foldlM
          (measureChunk sha256 (readLayout k fields).1 d) found with
      | none => exact .blocked hl hu (hchunks.mp hm)
      | some findings =>
        have hb : ¬d.Blocked k fields := by
          intro hb
          cases hm.symm.trans (hchunks.mpr hb)
        refine .measured _ _ hl hu hb ⟨rfl, rfl⟩ rfl ?_ fun hv => by simp_all
        have hfirst := foldlM_some_iff (fun h => strayEntry_encodable h) hs
        have hsecond := foldlM_some_iff (fun h => measureChunk_encodable h) hm
        simp only [allEncodable_append, totalErrors_encodable, and_true, hsecond, hfirst, hlayout, true_and]
        simp [Dir.NamesEncodable]

/-- A version directory of which a report can be made and sent, or which the engine refuses to read as it
refuses a bad request. -/
def Dir.Reportable (k : Key) (d : Dir) : Prop :=
  d.linked = false ∧
    match d.metadata with
    | .absent | .undecodable => True
    | .symlink | .unreadable | .failing | .document .other => False
    | .document (.dict fields) => d.listing = none ∧ (d.Unparsed ∨ ¬d.Blocked k fields ∧ d.NamesEncodable)

def unexpectedStatus (status : ℕ) : ClientError :=
  NodeClient.protocolError s!"Unexpected storage-node HTTP status {status}."

/-- What the control plane sees of an outcome of the engine's `verify`. -/
def seen (raiseOnInvalid : Bool) : Except EngineError VerificationResult → Except ClientError VerifiedObject
  | .ok r => if AllEncodable r.errors then received raiseOnInvalid r else .error (unexpectedStatus 500)
  | .error (.value _) => .error ⟨.invalidRequest, "Storage node rejected the request."⟩
  | .error (.objectNotFound _) => .error ⟨.objectNotFound, "Object/version was not found on the storage node."⟩
  | .error _ => .error (unexpectedStatus 500)

lemma readReport_internalError (raiseOnInvalid : Bool) (k : Key) (body : Body) :
    NodeClient.readReport raiseOnInvalid k ⟨500, body⟩ = .error (unexpectedStatus 500) := by
  simp [NodeClient.readReport, NodeClient.raiseForResponse, NodeClient.retryableStatusCodes, unexpectedStatus, bind,
    Except.bind]

lemma readReport_eq_seen {sha256 : Bytes → Checksum} {k : Key} {d : Option Dir} (hk : k.Valid)
    (hr : ∀ r, verify sha256 k d = .ok r → r.About k) (raiseOnInvalid : Bool) :
    NodeClient.readReport raiseOnInvalid k (NodeServer.verifyObject (verify sha256 k d)) =
      seen raiseOnInvalid (verify sha256 k d) := by
  cases hv : verify sha256 k d with
  | ok r =>
    have habout := hr r hv
    by_cases he : AllEncodable r.errors
    · have hsent : NodeServer.verifyObject (.ok r) = ⟨200, .json (.dict (NodeServer.verifyResponse r))⟩ := if_pos he
      rw [hsent, readReport_verifyResponse hk habout.1 habout.2, seen, if_pos he]
    · have hsent : NodeServer.verifyObject (.ok r) = NodeServer.internalError := if_neg he
      rw [hsent, seen, if_neg he]
      exact readReport_internalError _ _ _
  | error e =>
    cases e with
    | value | objectNotFound => rfl
    | type | objectAlreadyExists | storageFull | storage | other => exact readReport_internalError _ _ _

lemma verifyRemote_eq {sha256 : Bytes → Checksum} {k : Key} {d : Option Dir} (hk : k.Valid)
    (hr : ∀ r, verify sha256 k d = .ok r → r.About k) (raiseOnInvalid : Bool) :
    verifyRemote sha256 raiseOnInvalid k d = (seen raiseOnInvalid (verify sha256 k d)).mapError .client := by
  rw [← readReport_eq_seen hk hr]
  simp [verifyRemote, NodeClient.verifyObject, validateIdentifiers_ok hk, bind, Except.bind]

/-- The report reaches the control plane as it is, and damage is not blamed on the protocol or the node. -/
structure SurvivesWire (sha256 : Bytes → Checksum) (k : Key) (d : Option Dir) : Prop where
  report : ∀ r, verify sha256 k d = .ok r → ∃ c, r.checksum = some c ∧
    verifyRemote sha256 false k d = .ok ⟨r.objectId, r.versionId, r.sizeBytes, c, r.valid⟩ ∧
    verifyRemote sha256 true k d =
      if r.valid then .ok ⟨r.objectId, r.versionId, r.sizeBytes, c, r.valid⟩
      else .error (.client NodeClient.invalidStoredData)
  blame : ∀ raiseOnInvalid e, verifyRemote sha256 raiseOnInvalid k d = .error (.client e) →
    e.kind ≠ .protocol ∧ e.kind ≠ .unavailable

/-- The outcomes of `verify` that the client takes for what they are. -/
def Understood : Except EngineError VerificationResult → Prop
  | .ok r => AllEncodable r.errors ∧ r.checksum ≠ none
  | .error (.value _) | .error (.objectNotFound _) => True
  | .error _ => False

lemma survivesWire_iff_understood {sha256 : Bytes → Checksum} {k : Key} {d : Option Dir} (hk : k.Valid)
    (hr : ∀ r, verify sha256 k d = .ok r → r.About k) :
    SurvivesWire sha256 k d ↔ Understood (verify sha256 k d) := by
  have hremote := verifyRemote_eq hk hr
  cases hv : verify sha256 k d with
  | ok r =>
    simp only [hv] at hremote
    constructor
    · intro hs
      obtain ⟨c, hc, hfalse, -⟩ := hs.report r hv
      refine ⟨?_, by simp [hc]⟩
      by_contra he
      rw [hremote, seen, if_neg he] at hfalse
      cases hfalse
    · rintro ⟨he, hc⟩
      obtain ⟨c, hc⟩ := Option.ne_none_iff_exists'.mp hc
      have hseen : ∀ b, seen b (.ok r) = if ¬r.valid ∧ b then .error NodeClient.invalidStoredData
          else .ok ⟨r.objectId, r.versionId, r.sizeBytes, c, r.valid⟩ := by
        intro b
        rw [seen, if_pos he, received, hc]
      constructor
      · intro r' hv'
        cases hv.symm.trans hv'
        refine ⟨c, hc, ?_, ?_⟩
        · rw [hremote, hseen]
          simp [Except.mapError]
        · rw [hremote, hseen]
          cases r.valid <;> simp [Except.mapError]
      · intro b e he
        rw [hremote, hseen] at he
        split_ifs at he <;> cases he
        exact ⟨by decide, by decide⟩
  | error x =>
    simp only [hv] at hremote
    have hunknown : seen false (.error x) = .error (unexpectedStatus 500) → ¬SurvivesWire sha256 k d := by
      intro hx hs
      have hfalse := hremote false
      rw [hx] at hfalse
      exact (hs.blame false _ hfalse).1 rfl
    have hknown : (∀ b, ∃ e, seen b (.error x) = .error e ∧ e.kind ≠ .protocol ∧ e.kind ≠ .unavailable) →
        SurvivesWire sha256 k d := by
      intro hx
      refine ⟨fun r hok => ?_, fun b e he => ?_⟩
      · cases hv.symm.trans hok
      obtain ⟨e', hseen, hkind⟩ := hx b
      rw [hremote, hseen] at he
      cases he
      exact hkind
    cases x with
    | value message => exact iff_of_true (hknown fun b => ⟨_, rfl, by decide, by decide⟩) trivial
    | objectNotFound message => exact iff_of_true (hknown fun b => ⟨_, rfl, by decide, by decide⟩) trivial
    | type | objectAlreadyExists | storageFull | storage | other => exact iff_of_false (hunknown rfl) id

section Outcomes

variable {sha256 : Bytes → Checksum} {k : Key} {d : Option Dir}

lemma verify_of_storage (hk : k.Valid) {message : String} (h : readMetadata k d = .error (.storage message)) :
    verify sha256 k d = .ok (rejected k 0 [.ofString message]) := by
  simp [verify, validateIds_ok.mpr hk, bind, Except.bind, h]

lemma verify_of_error (hk : k.Valid) {e : EngineError} (h : readMetadata k d = .error e)
    (he : ∀ message, e ≠ .storage message) : verify sha256 k d = .error e := by
  simp only [verify, validateIds_ok.mpr hk, bind, Except.bind, h]

lemma verify_of_fields (hk : k.Valid) {fields : Fields} (h : readMetadata k d = .ok fields) :
    verify sha256 k d = inspect sha256 k fields (d.getD {}) := by
  simp [verify, validateIds_ok.mpr hk, bind, Except.bind, h]

lemma verify_invalid (sha256 : Bytes → Checksum) (d : Option Dir) (hk : ¬k.Valid) :
    ∃ message, verify sha256 k d = .error (.value message) := by
  have hv : ∃ message, validateIds k = .error (.value message) := by
    unfold validateIds
    split_ifs with ho hv
    · exact absurd ⟨ho, hv⟩ hk
    · exact ⟨_, rfl⟩
    · exact ⟨_, rfl⟩
  obtain ⟨message, hv⟩ := hv
  refine ⟨message, ?_⟩
  rw [verify, hv]
  rfl

lemma verify_about {r : VerificationResult} (h : verify sha256 k d = .ok r) : k.Valid ∧ r.About k := by
  by_cases hk : k.Valid
  swap
  · obtain ⟨message, hv⟩ := verify_invalid sha256 d hk
    cases hv.symm.trans h
  refine ⟨hk, ?_⟩
  cases hm : readMetadata k d with
  | error e =>
    by_cases he : ∃ message, e = .storage message
    · obtain ⟨message, rfl⟩ := he
      cases (verify_of_storage hk hm).symm.trans h
      exact ⟨rfl, rfl⟩
    · rw [verify_of_error hk hm fun message hs => he ⟨message, hs⟩] at h
      cases h
  | ok fields =>
    have hi := inspected sha256 k fields (d.getD {})
    rw [← verify_of_fields hk hm, h] at hi
    cases hi with
    | unlisted _ _ hr _ _ => exact hr
    | measured _ _ _ _ _ hr _ _ _ => exact hr

lemma valid_errors {r : VerificationResult} (h : verify sha256 k d = .ok r) (hv : r.valid = true) : r.errors = [] := by
  have hk := (verify_about h).1
  cases hm : readMetadata k d with
  | error e =>
    by_cases he : ∃ message, e = .storage message
    · obtain ⟨message, rfl⟩ := he
      cases (verify_of_storage hk hm).symm.trans h
      cases hv
    · rw [verify_of_error hk hm fun message hs => he ⟨message, hs⟩] at h
      cases h
  | ok fields =>
    have hi := inspected sha256 k fields (d.getD {})
    rw [← verify_of_fields hk hm, h] at hi
    cases hi with
    | unlisted _ _ _ _ hv' => exact absurd hv (by simp [hv'])
    | measured _ _ _ _ _ _ _ _ hv' => exact hv' hv

end Outcomes

lemma not_understood_rejected (k : Key) (n : ℕ) (errors : List Text) : ¬Understood (.ok (rejected k n errors)) :=
  fun h => h.2 rfl

lemma Inspected.understood_iff {k : Key} {fields : Fields} {d : Dir} {x : Except EngineError VerificationResult}
    (h : Inspected k fields d x) :
    Understood x ↔ d.listing = none ∧ (d.Unparsed ∨ ¬d.Blocked k fields ∧ d.NamesEncodable) := by
  cases h with
  | unlisted r hl hr hc hv => exact iff_of_false (fun h => h.2 hc) fun h => hl h.1
  | unparsed message hl hu => exact iff_of_true trivial ⟨hl, Or.inl hu⟩
  | blocked hl hu hb => exact iff_of_false id fun h => h.2.elim hu fun h => h.1 hb
  | measured r c hl hu hb hr hc he hv => simp [Understood, hc, he, hl, hu, hb]

/-- What the metadata file shows decides what `verify` does, before any chunk is looked at. -/
lemma understood_verify_iff {sha256 : Bytes → Checksum} {k : Key} (hk : k.Valid) (d : Dir) :
    Understood (verify sha256 k (some d)) ↔ d.Reportable k := by
  have hrejected : ∀ {message : String}, readMetadata k (some d) = .error (.storage message) →
      ¬Understood (verify sha256 k (some d)) := by
    intro message h
    rw [verify_of_storage hk h]
    exact not_understood_rejected k 0 _
  unfold Dir.Reportable
  cases hl : d.linked with
  | true => exact iff_of_false (hrejected (by simp [readMetadata, hl]; rfl)) (by simp)
  | false =>
    cases hm : d.metadata with
    | absent =>
      rw [verify_of_error (e := .objectNotFound s!"Object version not found: {k}") hk
        (by simp [readMetadata, hl, hm]) (by simp)]
      exact iff_of_true trivial ⟨rfl, trivial⟩
    | undecodable =>
      rw [verify_of_error (e := .value "metadata text cannot be decoded") hk (by simp [readMetadata, hl, hm])
        (by simp)]
      exact iff_of_true trivial ⟨rfl, trivial⟩
    | failing =>
      rw [verify_of_error (e := .other) hk (by simp [readMetadata, hl, hm]) (by simp)]
      exact iff_of_false id fun h => h.2
    | symlink => exact iff_of_false (hrejected (by simp [readMetadata, hl, hm]; rfl)) fun h => h.2
    | unreadable => exact iff_of_false (hrejected (by simp [readMetadata, hl, hm]; rfl)) fun h => h.2
    | document doc =>
      cases doc with
      | other => exact iff_of_false (hrejected (by simp [readMetadata, hl, hm]; rfl)) fun h => h.2
      | dict fields =>
        have hfields : readMetadata k (some d) = .ok fields := by simp [readMetadata, hl, hm]
        rw [verify_of_fields hk hfields]
        exact (inspected sha256 k fields d).understood_iff.trans (by simp)

theorem report_survives_wire_iff (sha256 : Bytes → Checksum) (k : Key) (d : Option Dir) :
    SurvivesWire sha256 k d ↔ (k.Valid → ∀ dir ∈ d, dir.Reportable k) := by
  by_cases hk : k.Valid
  · rw [survivesWire_iff_understood hk fun r hr => (verify_about hr).2]
    cases d with
    | none =>
      rw [verify_of_error hk rfl (by simp)]
      exact iff_of_true trivial (by simp)
    | some dir =>
      rw [understood_verify_iff hk]
      simp [hk]
  · refine iff_of_true ⟨fun r hr => absurd (verify_about hr).1 hk, ?_⟩ fun h => absurd h hk
    intro b e he
    obtain ⟨message, hv⟩ := verify_invalid sha256 d hk
    rw [verifyRemote, hv, NodeClient.verifyObject] at he
    cases hi : NodeClient.validateIdentifiers k with
    | error x =>
      rw [hi] at he
      unfold NodeClient.validateIdentifiers at hi
      split_ifs at hi <;> cases hi <;> cases he
    | ok _ =>
      rw [hi] at he
      cases he
      exact ⟨by decide, by decide⟩

/-- The upload is complete, but the text of `metadata.json` is cut off. -/
def truncatedMetadata : Dir := { metadata := .unreadable, entries := [(chunkName 0, .plain [1, 2])] }

theorem truncated_metadata_blamed_on_protocol :
    verify plainHash reportKey (some truncatedMetadata) =
        .ok (rejected reportKey 0 [.ofString "Object metadata is unreadable: report/v1"]) ∧
      verifyRemote plainHash false reportKey (some truncatedMetadata) = .error (.client
        ⟨.protocol, "Storage node response is missing a valid SHA-256 checksum."⟩) ∧
      ¬SurvivesWire plainHash reportKey (some truncatedMetadata) := by
  have hremote : verifyRemote plainHash false reportKey (some truncatedMetadata) = .error (.client
      ⟨.protocol, "Storage node response is missing a valid SHA-256 checksum."⟩) := by
    decide +kernel
  exact ⟨by decide +kernel, hremote, fun h => (h.blame false _ hremote).1 rfl⟩

end Vault.Storage
