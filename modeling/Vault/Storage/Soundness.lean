import Vault.Storage.RoundTrip

/-! `verify` is sound: whatever the directory holds, a report without errors says that the object can be read,
and that its bytes, its layout and its digests are those that its metadata records. Each check that is skipped
for want of a field has left an error behind. -/

namespace Vault.Storage

open Vault.Common Vault.Lib

def Findings.Clean (f : Findings) : Prop := f.errors = [] ∧ f.corrupt = []

/-- The size that `stat` reports of a file is the number of bytes that it holds. -/
def Dir.Measured (d : Dir) : Prop :=
  ∀ name content size, d.entryAt? name = some (.file content size none) → size = content.length

section Layouts

variable {k : Key} {fields : Fields}

/-- What the metadata records when none of its checks fails. -/
structure Recorded (k : Key) (fields : Fields) (size chunkSize count : ℕ) (checksum : String) (items : List Item) :
    Prop where
  objectId : fields.get "object_id" = some (.str k.objectId)
  versionId : fields.get "version_id" = some (.str k.versionId)
  sizeBytes : fields.get "size_bytes" = some (.int size)
  chunkSizeBytes : fields.get "chunk_size_bytes" = some (.int chunkSize)
  chunkCount : fields.get "chunk_count" = some (.int count)
  checksum_eq : fields.get "checksum" = some (.str checksum)
  chunkChecksums : fields.get "chunk_checksums" = some (.list items)
  chunkSize_pos : 0 < chunkSize
  count_le : count ≤ maxVerifyChunks
  count_eq : count = size ⌈/⌉ chunkSize
  length_eq : items.length = count

lemma metadataInt_clean {key : String} (h : (metadataInt fields key).2 = []) :
    ∃ n, fields.get key = some (.int n) ∧ metadataInt fields key = (some n, []) := by
  unfold metadataInt at h ⊢
  split at h
  · next n hn => exact ⟨n, hn, rfl⟩
  · cases h

lemma rejectInt_clean {p : ℤ → Bool} {message : String} {n : ℤ} (h : (rejectInt p message (some n)).2 = []) :
    p n = false ∧ rejectInt p message (some n) = (some n, []) := by
  unfold rejectInt at h ⊢
  dsimp only at h ⊢
  split_ifs at h ⊢ with hp
  exact ⟨by simpa using hp, rfl⟩

lemma expectedChecksum_clean (h : (expectedChecksum fields).2 = []) :
    ∃ s, fields.get "checksum" = some (.str s) ∧ expectedChecksum fields = (some s, []) := by
  unfold expectedChecksum at h ⊢
  split at h
  · next s hs =>
    split_ifs at h ⊢ with hsha
    exact ⟨s, hs, rfl⟩
  · cases h

lemma expectedChunkChecksums_clean (h : (expectedChunkChecksums fields).2 = []) :
    ∃ items, fields.get "chunk_checksums" = some (.list items) ∧ expectedChunkChecksums fields = (items, []) := by
  unfold expectedChunkChecksums at h ⊢
  split at h
  · next items hitems =>
    split_ifs at h ⊢ with hmax
    have hvalid : invalidItems items = [] := h
    exact ⟨items, hitems, by rw [hvalid]⟩
  · cases h

lemma countErrors_clean {size chunkSize count : ℕ} {checksum : Option String} {items : List Item}
    (h : countErrors ⟨some size, some chunkSize, some count, checksum, items⟩ = []) :
    items.length = count ∧ chunkCountFor size chunkSize = count := by
  obtain ⟨hlength, hcount⟩ := List.append_eq_nil_iff.mp h
  constructor
  · by_contra hne
    simp [hne] at hlength
  · by_contra hne
    simp [hne] at hcount

/-- A layout without errors has all its fields, and they agree with each other. -/
lemma readLayout_clean (h : (readLayout k fields).2 = []) :
    ∃ size chunkSize count checksum items, Recorded k fields size chunkSize count checksum items ∧
      (readLayout k fields).1 = ⟨some size, some chunkSize, some count, some checksum, items⟩ := by
  have hparts := h
  simp only [readLayout, List.append_eq_nil_iff] at hparts
  obtain ⟨⟨⟨⟨⟨⟨⟨⟨⟨⟨⟨hobject, hversion⟩, h₁⟩, h₂⟩, h₃⟩, h₄⟩, h₅⟩, h₆⟩, h₇⟩, h₈⟩, h₉⟩, hcounts⟩ := hparts
  obtain ⟨size, hsize, esize⟩ := metadataInt_clean h₁
  obtain ⟨chunkSize, hchunkSize, echunkSize⟩ := metadataInt_clean h₂
  obtain ⟨count, hcount, ecount⟩ := metadataInt_clean h₃
  rw [esize] at h₄
  rw [echunkSize] at h₅
  rw [ecount] at h₆
  obtain ⟨psize, rsize⟩ := rejectInt_clean h₄
  obtain ⟨pchunkSize, rchunkSize⟩ := rejectInt_clean h₅
  obtain ⟨pcount, rcount⟩ := rejectInt_clean h₆
  rw [ecount, rcount] at h₇
  obtain ⟨pmax, rmax⟩ := rejectInt_clean h₇
  obtain ⟨checksum, hchecksum, echecksum⟩ := expectedChecksum_clean h₈
  obtain ⟨items, hitems, eitems⟩ := expectedChunkChecksums_clean h₉
  obtain ⟨size, rfl⟩ := Int.eq_ofNat_of_zero_le (show 0 ≤ size by simpa using psize)
  obtain ⟨chunkSize, rfl⟩ := Int.eq_ofNat_of_zero_le (show 0 ≤ chunkSize by
    have hpos : 0 < chunkSize := by simpa using pchunkSize
    exact hpos.le)
  obtain ⟨count, rfl⟩ := Int.eq_ofNat_of_zero_le (show 0 ≤ count by simpa using pcount)
  have hlayout : (readLayout k fields).1 = ⟨some size, some chunkSize, some count, some checksum, items⟩ := by
    simp only [readLayout, esize, echunkSize, ecount, rsize, rchunkSize, rcount, rmax, echecksum, eitems,
      Option.map_some, Int.toNat_natCast]
  have hcounted : countErrors (readLayout k fields).1 = [] := hcounts
  rw [hlayout] at hcounted
  obtain ⟨hlength, hceil⟩ := countErrors_clean hcounted
  have hpos : 0 < chunkSize := Nat.pos_of_ne_zero (by simpa using pchunkSize)
  refine ⟨size, chunkSize, count, checksum, items, ⟨?_, ?_, hsize, hchunkSize, hcount, hchecksum, hitems, hpos, ?_, ?_,
    hlength⟩, hlayout⟩
  · by_contra hne
    simp [hne] at hobject
  · by_contra hne
    simp [hne] at hversion
  · simpa using pmax
  · rw [← hceil, chunkCountFor_eq hpos]

end Layouts

section Findings

variable {sha256 : Bytes → Checksum} {l : Layout} {d : Dir} {f g : Findings} {index : ℕ}

/-- The chunk is a file of the announced size whose digest is the recorded one. -/
def CleanChunk (sha256 : Bytes → Checksum) (l : Layout) (d : Dir) (index : ℕ) : Prop :=
  ∃ content size, d.entryAt? (chunkName index) = some (.file content size none) ∧
    (∀ expected ∈ expectedChunkSize l index, (size : ℤ) = expected) ∧
    l.chunkChecksums[index]? = some (.str (toString (sha256 content)))

lemma not_clean_blame {message : String} : ¬(f.blame index message).Clean := by
  simp [Findings.Clean, Findings.blame]

lemma checkChunkSize_clean {size : ℕ} : (checkChunkSize l index size f).Clean ↔
    f.Clean ∧ ∀ expected ∈ expectedChunkSize l index, (size : ℤ) = expected := by
  unfold checkChunkSize
  cases expectedChunkSize l index with
  | none => simp
  | some expected =>
    dsimp only
    split_ifs with he
    · simp [he]
    · simp [he, not_clean_blame]

lemma checkChunkDigest_clean {content : Bytes} : (checkChunkDigest sha256 l index content f).Clean ↔
    f.Clean ∧ l.chunkChecksums[index]? = some (.str (toString (sha256 content))) := by
  unfold checkChunkDigest
  cases l.chunkChecksums[index]? with
  | none => simp [not_clean_blame]
  | some item =>
    dsimp only
    split_ifs with he
    · simp [he]
    · simp [he, not_clean_blame]

/-- A chunk adds a finding unless it is as announced. -/
lemma measureChunk_clean (h : measureChunk sha256 l d f index = some g) :
    g.Clean ↔ f.Clean ∧ CleanChunk sha256 l d index := by
  unfold measureChunk at h
  unfold CleanChunk
  split at h <;> cases h
  · next hentry => simp [hentry, not_clean_blame]
  · next hentry => simp [hentry, not_clean_blame]
  · next content size fault hentry =>
    rw [hentry]
    unfold measureFile
    cases fault with
    | some error => simp [not_clean_blame]
    | none =>
      have hbytes : ∀ (f : Findings) (bytes : Bytes), ({ f with bytes := bytes } : Findings).Clean ↔ f.Clean :=
        fun _ _ => Iff.rfl
      dsimp only
      rw [checkChunkDigest_clean, hbytes, checkChunkSize_clean, and_assoc]
      simp
  · next hentry => simp [hentry, not_clean_blame]
  · next hentry => simp [hentry, not_clean_blame]

lemma measureChunk_bytes (h : measureChunk sha256 l d f index = some g) {content : Bytes} {size : ℕ}
    (hentry : d.entryAt? (chunkName index) = some (.file content size none)) : g.bytes = f.bytes ++ content := by
  have hblame : ∀ (f : Findings) (message : String), (f.blame index message).bytes = f.bytes := fun _ _ => rfl
  have hsize : (checkChunkSize l index size f).bytes = f.bytes := by
    unfold checkChunkSize
    split
    · split_ifs
      · rfl
      · exact hblame _ _
    · rfl
  simp only [measureChunk, hentry, Option.some.injEq] at h
  subst h
  simp only [measureFile, checkChunkDigest]
  split
  · rw [hblame, hsize]
  · split_ifs
    · rw [hsize]
    · rw [hblame, hsize]

lemma foldlM_measureChunk_bytes {indices : List ℕ} {contents : List Bytes}
    (h : indices.foldlM (measureChunk sha256 l d) f = some g)
    (hfiles : List.Forall₂ (fun i c => ∃ size, d.entryAt? (chunkName i) = some (.file c size none)) indices contents) :
    g.bytes = f.bytes ++ contents.flatten := by
  induction hfiles generalizing f with
  | nil =>
    cases h
    simp
  | @cons i c indices contents hi _ ih =>
    obtain ⟨size, hi⟩ := hi
    rw [List.foldlM_cons] at h
    cases hm : measureChunk sha256 l d f i with
    | none => simp [hm] at h
    | some f' =>
      rw [hm] at h
      rw [ih h, measureChunk_bytes hm hi, List.flatten_cons, List.append_assoc]

/-- A name adds a finding unless it is no chunk name or reads as an announced index. -/
lemma strayEntry_clean {count : Option ℕ} {name : Text} (h : strayEntry count f name = some g) :
    g.Clean ↔ f.Clean ∧
      (name.HasChunkPrefix → ∃ i n, parseChunkIndex name = some (some i) ∧ count = some n ∧ i < n) := by
  unfold strayEntry at h
  split_ifs at h with hp
  · split at h
    · cases h
    · next hparse =>
      cases h
      simp [Findings.Clean, hp, hparse]
    · next i n hparse =>
      split_ifs at h with hi
      · cases h
        simp [hparse, hi]
      · cases h
        simp [Findings.Clean, hp, hparse, hi]
    · next i hparse =>
      cases h
      simp [Findings.Clean, hp]
  · cases h
    simp [hp]

end Findings

section Reports

variable {sha256 : Bytes → Checksum} {k : Key} {fields : Fields} {d : Dir} {r : VerificationResult}

/-- Of the `chunk-` entries, only those are tolerated that read as an announced index. -/
def Dir.Announced (d : Dir) (count : Option ℕ) : Prop :=
  ∀ name ∈ d.entries.map Prod.fst, name.HasChunkPrefix →
    ∃ i n, parseChunkIndex name = some (some i) ∧ count = some n ∧ i < n

lemma inspect_unlisted {error : String} (hl : d.listing = some error) (h : inspect sha256 k fields d = .ok r) :
    r.valid = false := by
  simp only [inspect, hl] at h
  cases h
  rfl

/-- What a report is made of, once the directory could be listed. -/
lemma inspect_ok (hl : d.listing = none) (h : inspect sha256 k fields d = .ok r) :
    ∃ found findings, (d.entries.map Prod.fst).foldlM (strayEntry (readLayout k fields).1.chunkCount)
        { errors := (readLayout k fields).2 } = some found ∧
      (List.range r.chunkCount).foldlM (measureChunk sha256 (readLayout k fields).1 d) found = some findings ∧
      r.chunkCount = (readLayout k fields).1.chunkCount.getD 0 ∧ r.sizeBytes = findings.bytes.length ∧
      r.checksum = some (sha256 findings.bytes) ∧
      r.corruptChunks = findings.corrupt.dedup.mergeSort (· ≤ ·) ∧
      (r.valid = true ↔ findings.Clean ∧ totalErrors sha256 (readLayout k fields).1 findings = []) := by
  simp only [inspect, hl] at h
  split at h
  · cases h
  · next found hfound =>
    split at h
    · cases h
    · next findings hfindings =>
      cases h
      refine ⟨found, findings, hfound, hfindings, rfl, rfl, rfl, rfl, ?_⟩
      simp only [Findings.Clean, Bool.and_eq_true, List.isEmpty_iff, List.append_eq_nil_iff]
      tauto

lemma bytes_of_foldlM {f g : Findings} {names : List Text} {count : Option ℕ}
    (h : names.foldlM (strayEntry count) f = some g) : g.bytes = f.bytes := by
  refine foldlM_preserves (Q := fun f' : Findings => f'.bytes = f.bytes) (fun {b a c} hstep hb => ?_) h rfl
  unfold strayEntry at hstep
  split_ifs at hstep
  · split at hstep
    · cases hstep
    · cases hstep
      exact hb
    · split_ifs at hstep <;> cases hstep <;> exact hb
    · cases hstep
      exact hb
  · cases hstep
    exact hb

/-- The object is clean exactly when its metadata, the names of its chunks and its chunks are. -/
lemma clean_findings {found findings : Findings}
    (hfound : (d.entries.map Prod.fst).foldlM (strayEntry (readLayout k fields).1.chunkCount)
      { errors := (readLayout k fields).2 } = some found) {count : ℕ}
    (hfindings : (List.range count).foldlM (measureChunk sha256 (readLayout k fields).1 d) found = some findings) :
    findings.Clean ↔ (readLayout k fields).2 = [] ∧ d.Announced (readLayout k fields).1.chunkCount ∧
      ∀ i < count, CleanChunk sha256 (readLayout k fields).1 d i := by
  rw [foldlM_some_iff (fun h => measureChunk_clean h) hfindings, foldlM_some_iff (fun h => strayEntry_clean h) hfound]
  simp only [Findings.Clean, and_true, List.mem_range, Dir.Announced, and_assoc]

end Reports

/-- The sizes of the chunks of an object of the given size. -/
lemma chunk_sizes {size chunkSize count i : ℕ} (hpos : 0 < chunkSize) (hcount : count = size ⌈/⌉ chunkSize)
    (hi : i < count) {stored : ℕ} {checksum : Option String} {items : List Item}
    (hstored : ∀ expected ∈ expectedChunkSize ⟨some size, some chunkSize, some count, checksum, items⟩ i,
      (stored : ℤ) = expected) :
    (i + 1 < count → stored = chunkSize) ∧ (i + 1 = count → 1 ≤ stored ∧ stored ≤ chunkSize) := by
  simp only [expectedChunkSize, Option.mem_def] at hstored
  rw [if_neg (by omega)] at hstored
  constructor
  · intro hlast
    rw [if_pos hlast] at hstored
    exact_mod_cast hstored _ rfl
  · intro hlast
    rw [if_neg (by omega)] at hstored
    have hsize := hstored _ rfl
    rw [Nat.ceilDiv_eq_add_pred_div] at hcount
    have hlow : (i + 1) * chunkSize ≤ size + chunkSize - 1 := by
      rw [hlast, hcount]
      exact Nat.div_mul_le_self _ _
    have hhigh : size + chunkSize - 1 < (i + 1 + 1) * chunkSize := by
      rw [hlast, hcount, Nat.mul_comm]
      exact Nat.lt_mul_div_succ _ hpos
    have hoffset : ((count : ℤ) - 1) * chunkSize = (i * chunkSize : ℕ) := by
      rw [← hlast]
      push_cast
      ring
    rw [hoffset] at hsize
    rw [Nat.add_mul, Nat.one_mul] at hlow hhigh
    rw [Nat.add_mul, Nat.one_mul] at hhigh
    omega

/-- What a report without errors certifies about the object of key `k` in the directory `d`. -/
structure Certified (sha256 : Bytes → Checksum) (cfg : EngineConfig) (k : Key) (d : Dir) (r : VerificationResult)
    (fields : Fields) (chunkSize : ℕ) (chunks : List Bytes) : Prop where
  metadata : d.metadata = .document (.dict fields)
  read : readBytes cfg k (some d) = .ok chunks.flatten
  objectSize_eq : objectSize k (some d) = .ok (chunks.flatten.length : ℤ)
  sizeBytes : r.sizeBytes = chunks.flatten.length
  checksum : r.checksum = some (sha256 chunks.flatten)
  recordedChecksum : fields.get "checksum" = some (.str (toString (sha256 chunks.flatten)))
  objectId : r.objectId = k.objectId ∧ fields.get "object_id" = some (.str k.objectId)
  versionId : r.versionId = k.versionId ∧ fields.get "version_id" = some (.str k.versionId)
  chunkSizeBytes : fields.get "chunk_size_bytes" = some (.int chunkSize) ∧ 0 < chunkSize
  chunkCount : fields.get "chunk_count" = some (.int r.chunkCount) ∧ r.chunkCount = chunks.length ∧
    r.chunkCount = chunks.flatten.length ⌈/⌉ chunkSize
  files : ∀ i c, chunks[i]? = some c → d.entryAt? (chunkName i) = some (.plain c)
  full : ∀ i c, chunks[i]? = some c → i + 1 < chunks.length → c.length = chunkSize
  last : ∀ i c, chunks[i]? = some c → i + 1 = chunks.length → 1 ≤ c.length ∧ c.length ≤ chunkSize
  digests : fields.get "chunk_checksums" = some (.list (chunks.map fun c => .str (toString (sha256 c))))

section Soundness

variable {sha256 : Bytes → Checksum} {cfg : EngineConfig} {k : Key} {d : Dir} {fields : Fields}
  {size chunkSize count : ℕ} {checksum : String} {items : List Item}

/-- The contents of clean chunks, in order. -/
lemma exists_contents {l : Layout} (h : ∀ i < count, CleanChunk sha256 l d i) :
    ∃ contents : List Bytes, contents.length = count ∧ ∀ i c, contents[i]? = some c →
      ∃ stored, d.entryAt? (chunkName i) = some (.file c stored none) ∧
        (∀ expected ∈ expectedChunkSize l i, (stored : ℤ) = expected) ∧
        l.chunkChecksums[i]? = some (.str (toString (sha256 c))) := by
  induction count with
  | zero => exact ⟨[], rfl, by simp⟩
  | succ n ih =>
    obtain ⟨contents, hlength, hcontents⟩ := ih fun i hi => h i (by omega)
    obtain ⟨c, stored, hc⟩ := h n (by omega)
    refine ⟨contents ++ [c], by simp [hlength], fun i c' hi => ?_⟩
    rcases Nat.lt_or_ge i contents.length with hlt | hge
    · rw [List.getElem?_append_left hlt] at hi
      exact hcontents i c' hi
    · rw [List.getElem?_append_right hge, List.getElem?_singleton] at hi
      split_ifs at hi with h0
      cases hi
      obtain rfl : i = n := by omega
      exact ⟨stored, hc⟩

/-- Recorded files are read to their end. -/
lemma readBytes_recorded (hk : k.Valid) (hmeta : readMetadata k (some d) = .ok fields)
    (hrec : Recorded k fields size chunkSize count checksum items) {contents : List Bytes}
    (hfiles : List.Forall₂ (fun i c => ∃ size, d.entryAt? (chunkName i) = some (.file c size none))
      (List.range count) contents) : readBytes cfg k (some d) = .ok contents.flatten := by
  have hlayout : streamLayout cfg k (some d) = .ok (count, min chunkSize cfg.chunkSizeBytes) := by
    simp [streamLayout, validateIds_ok.mpr hk, hmeta, metadataNumber, hrec.chunkCount, hrec.chunkSizeBytes, bind,
      Except.bind, hrec.chunkSize_pos.ne']
  exact readBytes_of_plain hlayout (lt_min hrec.chunkSize_pos cfg.chunkSizeBytes_pos) hfiles

lemma objectSize_recorded (hk : k.Valid) (hmeta : readMetadata k (some d) = .ok fields)
    (hrec : Recorded k fields size chunkSize count checksum items) : objectSize k (some d) = .ok (size : ℤ) := by
  simp [objectSize, validateIds_ok.mpr hk, hmeta, metadataNumber, hrec.sizeBytes, bind, Except.bind]

lemma totalErrors_clean {f : Findings} (h : totalErrors sha256 ⟨some size, some chunkSize, some count, some checksum,
    items⟩ f = []) : f.bytes.length = size ∧ checksum = toString (sha256 f.bytes) := by
  obtain ⟨hsize, hsum⟩ := List.append_eq_nil_iff.mp h
  constructor
  · by_contra hne
    simp [hne] at hsize
  · by_contra hne
    simp [hne] at hsum

lemma readMetadata_ok {dir : Option Dir} (h : readMetadata k dir = .ok fields) :
    ∃ d, dir = some d ∧ d.metadata = .document (.dict fields) := by
  cases dir with
  | none => cases h
  | some d =>
    refine ⟨d, rfl, ?_⟩
    simp only [readMetadata] at h
    split_ifs at h
    split at h
    all_goals cases h
    assumption

/-- An object that verifies has readable metadata and no finding. -/
lemma verify_valid {dir : Option Dir} {r : VerificationResult} (h : verify sha256 k dir = .ok r)
    (hv : r.valid = true) : k.Valid ∧ ∃ d fields, dir = some d ∧ d.metadata = .document (.dict fields) ∧
      readMetadata k (some d) = .ok fields ∧ d.listing = none ∧ inspect sha256 k fields d = .ok r := by
  obtain ⟨hk, -⟩ := verify_about h
  refine ⟨hk, ?_⟩
  cases hmeta : readMetadata k dir with
  | error e =>
    by_cases he : ∃ message, e = .storage message
    · obtain ⟨message, rfl⟩ := he
      rw [verify_of_storage hk hmeta] at h
      cases h
      cases hv
    · rw [verify_of_error hk hmeta fun message hm => he ⟨message, hm⟩] at h
      cases h
  | ok fields =>
    obtain ⟨d, rfl, hd⟩ := readMetadata_ok hmeta
    rw [verify_of_fields hk hmeta, Option.getD_some] at h
    refine ⟨d, fields, rfl, hd, hmeta, ?_, h⟩
    cases hl : d.listing with
    | none => rfl
    | some error =>
      rw [inspect_unlisted hl h] at hv
      cases hv

end Soundness

/-- For every content of a version directory, valid metadata or forged, an object that verifies can be read by
any engine, and all that its metadata and the report say of it is so. -/
theorem verify_sound (sha256 : Bytes → Checksum) (cfg cfg' : EngineConfig) (k : Key) (dir : Option Dir)
    (hdir : ∀ d ∈ dir, d.Measured) (r : VerificationResult) (h : verifyBuffered sha256 cfg k dir = .ok r)
    (hv : r.valid = true) :
    ∃ d fields chunkSize chunks, dir = some d ∧ Certified sha256 cfg' k d r fields chunkSize chunks := by
  rw [verifyBuffered_eq] at h
  obtain ⟨hk, d, fields, rfl, hd, hmeta, hl, hr⟩ := verify_valid h hv
  have hmeasured : d.Measured := hdir d rfl
  obtain ⟨found, findings, hfound, hfindings, hcount, hsize, hchecksum, -, hvalid⟩ := inspect_ok hl hr
  obtain ⟨hclean, htotal⟩ := hvalid.mp hv
  obtain ⟨hlayout, -, hchunks⟩ := (clean_findings hfound hfindings).mp hclean
  obtain ⟨size, chunkSize, count, checksum, items, hrec, hl'⟩ := readLayout_clean hlayout
  rw [hl'] at hcount hchunks htotal hfindings
  obtain rfl : r.chunkCount = count := hcount
  obtain ⟨htotalSize, htotalSum⟩ := totalErrors_clean htotal
  obtain ⟨contents, hlength, hcontents⟩ := exists_contents hchunks
  have hfiles : List.Forall₂ (fun i c => ∃ size, d.entryAt? (chunkName i) = some (.file c size none))
      (List.range r.chunkCount) contents := by
    rw [List.forall₂_iff_get]
    refine ⟨by simp [hlength], fun i hi hi' => ?_⟩
    obtain ⟨stored, hentry, -⟩ := hcontents i contents[i] (List.getElem?_eq_getElem hi')
    simp only [List.get_eq_getElem, List.getElem_range]
    exact ⟨stored, hentry⟩
  have hbytes : findings.bytes = contents.flatten := by
    rw [foldlM_measureChunk_bytes hfindings hfiles, bytes_of_foldlM hfound, List.nil_append]
  rw [hbytes] at hsize hchecksum htotalSize htotalSum
  have hstored : ∀ i c, contents[i]? = some c → d.entryAt? (chunkName i) = some (.plain c) ∧
      ∀ expected ∈ expectedChunkSize ⟨some size, some chunkSize, some r.chunkCount, some checksum, items⟩ i,
        (c.length : ℤ) = expected := by
    intro i c hc
    obtain ⟨stored, hentry, hexpected, -⟩ := hcontents i c hc
    obtain rfl := hmeasured _ _ _ hentry
    exact ⟨hentry, hexpected⟩
  have hindex : ∀ i c, contents[i]? = some c → i < r.chunkCount := by
    intro i c hc
    rw [← hlength]
    exact (List.getElem?_eq_some_iff.mp hc).1
  have hsizes := fun i c (hc : contents[i]? = some c) =>
    chunk_sizes hrec.chunkSize_pos hrec.count_eq (hindex i c hc) (hstored i c hc).2
  have hdigests : items = contents.map fun c => .str (toString (sha256 c)) := by
    refine List.ext_getElem? fun i => ?_
    rw [List.getElem?_map]
    cases hc : contents[i]? with
    | none =>
      rw [List.getElem?_eq_none_iff, hlength, ← hrec.length_eq, ← List.getElem?_eq_none_iff] at hc
      exact hc
    | some c =>
      obtain ⟨stored, -, -, hdigest⟩ := hcontents i c hc
      exact hdigest
  obtain ⟨habout, habout'⟩ := (verify_about h).2
  refine ⟨d, fields, chunkSize, contents, rfl, ⟨hd, readBytes_recorded hk hmeta hrec hfiles, ?_, hsize, hchecksum, ?_,
    ⟨habout, hrec.objectId⟩, ⟨habout', hrec.versionId⟩, ⟨hrec.chunkSizeBytes, hrec.chunkSize_pos⟩,
    ⟨hrec.chunkCount, hlength.symm, ?_⟩, fun i c hc => (hstored i c hc).1, fun i c hc => ?_, fun i c hc => ?_, ?_⟩⟩
  · rw [objectSize_recorded hk hmeta hrec, htotalSize]
  · rw [hrec.checksum_eq, htotalSum]
  · rw [htotalSize]
    exact hrec.count_eq
  · rw [hlength]
    exact (hsizes i c hc).1
  · rw [hlength]
    exact (hsizes i c hc).2
  · rw [hrec.chunkChecksums, hdigests]

/-- The directory of three bytes that were written in chunks of two. -/
theorem written_object_certified :
    ∃ d fields chunkSize chunks, some (objectDir plainHash smallEngine reportKey [[1, 2], [3]]) = some d ∧
      Certified plainHash ⟨10, 1, by decide, by decide⟩ reportKey d
        { objectId := "report", versionId := "v1", sizeBytes := 3, valid := true,
          checksum := some (plainHash [1, 2, 3]), chunkCount := 2, corruptChunks := [], errors := [] }
        fields chunkSize chunks := by
  refine verify_sound plainHash smallEngine ⟨10, 1, by decide, by decide⟩ reportKey _ ?_ _ ?_ rfl
  · rintro d ⟨⟩ name content size hentry
    obtain ⟨row, hrow, he⟩ := Option.map_eq_some_iff.mp hentry
    obtain ⟨i, hi, rfl⟩ := List.mem_mapIdx.mp (Table.lookup_mem hrow)
    cases he
    rfl
  · decide +kernel

end Vault.Storage
