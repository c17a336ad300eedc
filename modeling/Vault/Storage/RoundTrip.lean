import Vault.Storage.Reports
import Vault.Storage.WriterAgreement

/-! What a write stored is what `object_size`, `iter_chunks` and `verify` find. `verify` reads a chunk in
pieces of its own buffer; it accepts no object of more than `MAX_VERIFY_CHUNKS` chunks, which a write
does not ask. -/

namespace Vault.Storage

open Vault.Common Vault.Lib

section Buffered

variable (sha256 : Bytes → Checksum)

/-- The digests of the chunk and of the object after a file was read with the buffer. -/
def hashFile (readSize : ℕ) (content : Bytes) (object : Bytes) : Bytes × Bytes :=
  (readPieces readSize content.length content).foldl (fun digests data => (digests.1 ++ data, digests.2 ++ data))
    ([], object)

def measureFileBuffered (readSize : ℕ) (l : Layout) (index : ℕ) (content : Bytes) (size : ℕ) (fault : Option String)
    (f : Findings) : Findings :=
  let f := checkChunkSize l index size f
  let (digest, object) := hashFile readSize content f.bytes
  let f := { f with bytes := object }
  match fault with
  | some error => f.blame index s!"unreadable chunk {index}: {error}"
  | none => checkChunkDigest sha256 l index digest f

def measureChunkBuffered (readSize : ℕ) (l : Layout) (d : Dir) (f : Findings) (index : ℕ) : Option Findings :=
  match d.entryAt? (chunkName index) with
  | some (.file content size fault) => some (measureFileBuffered sha256 readSize l index content size fault f)
  | _ => measureChunk sha256 l d f index

def readSize (cfg : EngineConfig) (l : Layout) : ℕ :=
  match l.chunkSizeBytes with
  | some chunkSize => min chunkSize cfg.chunkSizeBytes
  | none => cfg.chunkSizeBytes

/-- `inspect` with the chunks read in pieces. -/
def inspectBuffered (cfg : EngineConfig) (k : Key) (fields : Fields) (d : Dir) : Except EngineError VerificationResult :=
  let (layout, errors) := readLayout k fields
  let chunkCount := layout.chunkCount.getD 0
  match d.listing with
  | some error =>
    .ok (rejected k chunkCount (errors ++ [.ofString s!"cannot inspect object directory: {error}"]))
  | none =>
    match (d.entries.map Prod.fst).foldlM (strayEntry layout.chunkCount) { errors := errors } with
    | none => .error (.value "invalid literal for int() with base 10")
    | some findings =>
      match (List.range chunkCount).foldlM (measureChunkBuffered sha256 (readSize cfg layout) layout d) findings with
      | none => .error .other
      | some findings =>
        let errors := findings.errors ++ totalErrors sha256 layout findings
        .ok
          { objectId := k.objectId, versionId := k.versionId, sizeBytes := findings.bytes.length,
            valid := errors.isEmpty && findings.corrupt.isEmpty,
            checksum := some (sha256 findings.bytes), chunkCount := chunkCount,
            corruptChunks := findings.corrupt.dedup.mergeSort (· ≤ ·), errors := errors }

def verifyBuffered (cfg : EngineConfig) (k : Key) (d : Option Dir) : Except EngineError VerificationResult := do
  validateIds k
  match readMetadata k d with
  | .error (.storage message) => .ok (rejected k 0 [.ofString message])
  | .error e => .error e
  | .ok fields => inspectBuffered sha256 cfg k fields (d.getD {})

end Buffered

variable {sha256 : Bytes → Checksum} {cfg : EngineConfig} {k : Key}

lemma hashFile_eq {n : ℕ} (hn : 0 < n) (content object : Bytes) :
    hashFile n content object = (content, object ++ content) := by
  have hfold : ∀ (pieces : List Bytes) (a b : Bytes),
      pieces.foldl (fun digests data => (digests.1 ++ data, digests.2 ++ data)) (a, b) =
        (a ++ pieces.flatten, b ++ pieces.flatten) := by
    intro pieces
    induction pieces with
    | nil => simp
    | cons p pieces ih => simp [ih]
  rw [hashFile, hfold, flatten_readPieces hn le_rfl, List.nil_append]

lemma rejectInt_some {p : ℤ → Bool} {message : String} {o : Option ℤ} {n : ℤ}
    (h : (rejectInt p message o).1 = some n) : o = some n ∧ p n = false := by
  cases o with
  | none => cases h
  | some m =>
    unfold rejectInt at h
    dsimp only at h
    split_ifs at h with hp
    cases h
    exact ⟨rfl, by simpa using hp⟩

lemma readSize_pos (cfg : EngineConfig) (k : Key) (fields : Fields) : 0 < readSize cfg (readLayout k fields).1 := by
  have hlayout : (readLayout k fields).1.chunkSizeBytes =
      (rejectInt (· ≤ 0) "invalid chunk_size_bytes" (metadataInt fields "chunk_size_bytes").1).1.map Int.toNat := rfl
  unfold readSize
  rw [hlayout]
  cases hn : (rejectInt (· ≤ 0) "invalid chunk_size_bytes" (metadataInt fields "chunk_size_bytes").1).1 with
  | none => exact cfg.chunkSizeBytes_pos
  | some n =>
    have hpos : 0 < n := by simpa using (rejectInt_some hn).2
    exact lt_min (by simpa using hpos) cfg.chunkSizeBytes_pos

lemma measureChunkBuffered_eq {n : ℕ} (hn : 0 < n) (l : Layout) (d : Dir) :
    measureChunkBuffered sha256 n l d = measureChunk sha256 l d := by
  funext f index
  unfold measureChunkBuffered measureChunk
  cases d.entryAt? (chunkName index) with
  | none => rfl
  | some entry =>
    cases entry with
    | file content size fault =>
      simp only [measureFileBuffered, measureFile, hashFile_eq hn] <;> rfl
    | _ => rfl

/-- The size of the buffer does not show in the report. -/
theorem verifyBuffered_eq (cfg : EngineConfig) (k : Key) (d : Option Dir) :
    verifyBuffered sha256 cfg k d = verify sha256 k d := by
  have hinspect : ∀ fields d, inspectBuffered sha256 cfg k fields d = inspect sha256 k fields d := by
    intro fields d
    simp only [inspectBuffered, inspect, measureChunkBuffered_eq (readSize_pos cfg k fields)] <;> rfl
  simp only [verifyBuffered, verify, hinspect] <;> rfl

lemma isSha256_toString (c : Checksum) : isSha256 (toString c) = true := by
  have hlist : (toString c).toList = c.digits.map (fun d => hexDigit d.val) := String.toList_ofList
  have hdigit : ∀ d : Fin 16, hexDigit d.val ∈ hexDigits := by decide
  simp [isSha256, hlist, c.length_eq, hdigit]

lemma invalidItems_digests (chunks : List Bytes) :
    invalidItems (chunks.map fun c => .str (toString (sha256 c))) = [] := by
  rw [invalidItems, List.map_eq_nil_iff, List.filter_eq_nil_iff]
  intro p hp
  obtain ⟨c, -, hc⟩ := List.mem_map.mp (List.fst_mem_of_mem_zipIdx hp)
  simp [← hc, isSha256_toString]

lemma chunkCountFor_eq {n : ℕ} (hn : 0 < n) (size : ℕ) : chunkCountFor size n = size ⌈/⌉ n := by
  rw [chunkCountFor, Nat.ceilDiv_eq_add_pred_div]
  split_ifs with hs
  · rw [hs, Nat.zero_add, Nat.div_eq_of_lt (Nat.sub_lt hn one_pos)]
  · rfl

lemma length_of_cut {n : ℕ} (hn : 0 < n) {blocks : List Bytes} (h : Blocks.Cut n blocks) :
    blocks.length = blocks.flatten.length ⌈/⌉ n := by
  rw [(h.getElem?_eq hn).1, Nat.ceilDiv_eq_add_pred_div]

/-- The layout that a write recorded. -/
def storedLayout (sha256 : Bytes → Checksum) (cfg : EngineConfig) (chunks : List Bytes) : Layout where
  sizeBytes := some chunks.flatten.length
  chunkSizeBytes := some cfg.chunkSizeBytes
  chunkCount := some chunks.length
  checksum := some (toString (sha256 chunks.flatten))
  chunkChecksums := chunks.map fun c => .str (toString (sha256 c))

lemma rejectInt_pass {p : ℤ → Bool} {message : String} {n : ℤ} (h : p n = false) :
    rejectInt p message (some n) = (some n, []) := by
  simp [rejectInt, h]

lemma readLayout_stored {chunks : List Bytes} (h : Blocks.Cut cfg.chunkSizeBytes chunks)
    (hmax : chunks.length ≤ maxVerifyChunks) :
    readLayout k (objectFields sha256 cfg k chunks) = (storedLayout sha256 cfg chunks, []) := by
  have hpos := cfg.chunkSizeBytes_pos
  have hcount : chunkCountFor chunks.flatten.length cfg.chunkSizeBytes = chunks.length := by
    rw [chunkCountFor_eq hpos, ← length_of_cut hpos h]
  have hsizes : metadataInt (objectFields sha256 cfg k chunks) "size_bytes" =
      (some (chunks.flatten.length : ℤ), []) := rfl
  have hchunkSizes : metadataInt (objectFields sha256 cfg k chunks) "chunk_size_bytes" =
      (some (cfg.chunkSizeBytes : ℤ), []) := rfl
  have hcounts : metadataInt (objectFields sha256 cfg k chunks) "chunk_count" =
      (some (chunks.length : ℤ), []) := rfl
  have hchecksum : expectedChecksum (objectFields sha256 cfg k chunks) =
      (some (toString (sha256 chunks.flatten)), []) := if_pos (isSha256_toString _)
  have hdigests : expectedChunkChecksums (objectFields sha256 cfg k chunks) =
      (chunks.map fun c => .str (toString (sha256 c)), []) := by
    refine (if_neg ?_).trans (congrArg _ (invalidItems_digests chunks))
    simpa using hmax
  have hlayout : countErrors (storedLayout sha256 cfg chunks) = [] := by
    simp [countErrors, storedLayout, hcount, -List.length_flatten]
  have hobject : (objectFields sha256 cfg k chunks).get "object_id" = some (.str k.objectId) := rfl
  have hversion : (objectFields sha256 cfg k chunks).get "version_id" = some (.str k.versionId) := rfl
  unfold readLayout
  simp only [hsizes, hchunkSizes, hcounts, hchecksum, hdigests, hobject, hversion]
  rw [rejectInt_pass (by simp [-List.length_flatten]), rejectInt_pass (by simpa using hpos.ne'),
    rejectInt_pass (by simp), rejectInt_pass (by simpa using hmax)]
  simpa [storedLayout, -List.length_flatten] using hlayout

lemma foldlM_strayEntry {chunks : List Bytes} (hmax : chunks.length ≤ maxVerifyChunks) (f : Findings) :
    ((chunkEntries chunks).map Prod.fst).foldlM (strayEntry (some chunks.length)) f = some f := by
  have hnames : ∀ name ∈ (chunkEntries chunks).map Prod.fst, ∀ f, strayEntry (some chunks.length) f name = some f := by
    intro name hname f
    obtain ⟨entry, hentry, rfl⟩ := List.mem_map.mp hname
    obtain ⟨i, hi, rfl⟩ := List.mem_mapIdx.mp hentry
    have hparse := parseChunkIndex_chunkName (lt_of_lt_of_le hi hmax)
    simp [strayEntry, hasChunkPrefix_chunkName, hparse, hi]
  generalize (chunkEntries chunks).map Prod.fst = names at hnames ⊢
  induction names with
  | nil => rfl
  | cons name names ih =>
    rw [List.foldlM_cons, hnames name List.mem_cons_self f]
    exact ih fun n hn => hnames n (List.mem_cons_of_mem _ hn)

lemma expectedChunkSize_stored {chunks : List Bytes} (h : Blocks.Cut cfg.chunkSizeBytes chunks) {i : ℕ}
    (hi : i < chunks.length) : expectedChunkSize (storedLayout sha256 cfg chunks) i = some (chunks[i].length : ℤ) := by
  have hn := cfg.chunkSizeBytes_pos
  simp only [expectedChunkSize, storedLayout]
  rw [if_neg (by omega)]
  split_ifs with hlast
  · rw [h.full i hlast _ (List.getElem?_eq_getElem hi)]
  · have hcount : chunks.length = i + 1 := by omega
    obtain ⟨hlength, hslices⟩ := h.getElem?_eq hn
    have hslice := congrArg List.length (hslices i _ (List.getElem?_eq_getElem hi))
    obtain ⟨hfirst, -⟩ := h.last i hcount.symm _ (List.getElem?_eq_getElem hi)
    rw [List.length_take, List.length_drop] at hslice
    generalize chunks.flatten.length = size at hlength hslice ⊢
    have hsize : size ≤ i * cfg.chunkSizeBytes + cfg.chunkSizeBytes := by
      have hlt := Nat.lt_mul_div_succ (size + cfg.chunkSizeBytes - 1) hn
      rw [← hlength, hcount, Nat.mul_add, Nat.mul_add, Nat.mul_comm] at hlt
      omega
    have hoffset : ((chunks.length : ℤ) - 1) * cfg.chunkSizeBytes = (i * cfg.chunkSizeBytes : ℕ) := by
      rw [hcount]
      push_cast
      ring
    rw [hoffset, hslice]
    congr 1
    omega

lemma measureChunk_stored {chunks : List Bytes} (h : Blocks.Cut cfg.chunkSizeBytes chunks) {i : ℕ}
    (hi : i < chunks.length) (f : Findings) :
    measureChunk sha256 (storedLayout sha256 cfg chunks) (objectDir sha256 cfg k chunks) f i =
      some { f with bytes := f.bytes ++ chunks[i] } := by
  have hentry : (objectDir sha256 cfg k chunks).entryAt? (chunkName i) = some (.file chunks[i] chunks[i].length none) :=
    entryAt?_objectDir chunks i hi
  have hdigest : (storedLayout sha256 cfg chunks).chunkChecksums[i]? = some (.str (toString (sha256 chunks[i]))) := by
    simp [storedLayout, hi]
  simp only [measureChunk, hentry, measureFile, checkChunkSize, expectedChunkSize_stored h hi, if_true,
    checkChunkDigest, hdigest]

/-- The chunks are found and read in order. -/
lemma foldlM_measureChunk {chunks : List Bytes} (h : Blocks.Cut cfg.chunkSizeBytes chunks) (f : Findings) :
    (List.range chunks.length).foldlM
        (measureChunk sha256 (storedLayout sha256 cfg chunks) (objectDir sha256 cfg k chunks)) f =
      some { f with bytes := f.bytes ++ chunks.flatten } := by
  have hnamed : ∀ n ≤ chunks.length, (List.range n).foldlM
      (measureChunk sha256 (storedLayout sha256 cfg chunks) (objectDir sha256 cfg k chunks)) f =
        some { f with bytes := f.bytes ++ (chunks.take n).flatten } := by
    intro n hn
    induction n with
    | zero => simp
    | succ n ih =>
      have hnext : (chunks.take (n + 1)).flatten = (chunks.take n).flatten ++ chunks[n] := by
        rw [← List.take_append_getElem (Nat.lt_of_succ_le hn), List.flatten_append, List.flatten_singleton]
      rw [List.range_succ, List.foldlM_append, ih (Nat.le_of_succ_le hn), hnext, ← List.append_assoc]
      simp only [Option.bind_eq_bind, Option.bind_some, List.foldlM_cons, List.foldlM_nil,
        measureChunk_stored h (Nat.lt_of_succ_le hn)]
      rfl
  simpa using hnamed chunks.length le_rfl

lemma verify_stored (hk : k.Valid) {chunks : List Bytes} (h : Blocks.Cut cfg.chunkSizeBytes chunks)
    (hmax : chunks.length ≤ maxVerifyChunks) :
    verify sha256 k (some (objectDir sha256 cfg k chunks)) =
      .ok
        { objectId := k.objectId, versionId := k.versionId, sizeBytes := chunks.flatten.length, valid := true,
          checksum := some (sha256 chunks.flatten), chunkCount := chunks.length, corruptChunks := [],
          errors := [] } := by
  have hmeta : readMetadata k (some (objectDir sha256 cfg k chunks)) = .ok (objectFields sha256 cfg k chunks) := rfl
  have hlisting : (objectDir sha256 cfg k chunks).listing = none := rfl
  have hentries : (objectDir sha256 cfg k chunks).entries = chunkEntries chunks := rfl
  have hcount : (storedLayout sha256 cfg chunks).chunkCount = some chunks.length := rfl
  rw [verify_of_fields hk hmeta, Option.getD_some]
  simp only [inspect, readLayout_stored h hmax, hlisting, hentries, hcount, foldlM_strayEntry hmax, Option.getD_some,
    foldlM_measureChunk h, List.nil_append]
  have htotal : totalErrors sha256 (storedLayout sha256 cfg chunks) { bytes := chunks.flatten } = [] := by
    simp [totalErrors, storedLayout]
  simp [htotal]

lemma strayEntry_errors {count : Option ℕ} {f g : Findings} {name : Text} (h : strayEntry count f name = some g)
    (hf : f.errors ≠ []) : g.errors ≠ [] := by
  unfold strayEntry at h
  split_ifs at h with hp
  · split at h
    · cases h
    · cases h
      simp
    · split_ifs at h <;> cases h
      · exact hf
      · simp
    · cases h
      simp
  · cases h
    exact hf

/-- Of an object with too many chunks the report says so. -/
lemma verify_oversized (hk : k.Valid) {chunks : List Bytes} (hmax : maxVerifyChunks < chunks.length)
    {r : VerificationResult} (h : verify sha256 k (some (objectDir sha256 cfg k chunks)) = .ok r) :
    r.valid = false := by
  have hmeta : readMetadata k (some (objectDir sha256 cfg k chunks)) = .ok (objectFields sha256 cfg k chunks) := rfl
  have hlisting : (objectDir sha256 cfg k chunks).listing = none := rfl
  have hcounts : metadataInt (objectFields sha256 cfg k chunks) "chunk_count" =
      (some (chunks.length : ℤ), []) := rfl
  have hreject : rejectInt (· > maxVerifyChunks) "chunk_count exceeds verification limit" (some (chunks.length : ℤ)) =
      (none, [.ofString "chunk_count exceeds verification limit"]) := by
    simp [rejectInt, hmax]
  have herrors : (readLayout k (objectFields sha256 cfg k chunks)).2 ≠ [] := by
    simp only [readLayout, hcounts]
    rw [rejectInt_pass (n := (chunks.length : ℤ)) (by simp), hreject]
    simp
  have hcount : (readLayout k (objectFields sha256 cfg k chunks)).1.chunkCount = none := by
    simp only [readLayout, hcounts]
    rw [rejectInt_pass (n := (chunks.length : ℤ)) (by simp), hreject]
    rfl
  rw [verify_of_fields hk hmeta, Option.getD_some] at h
  simp only [inspect, hlisting, hcount, Option.getD_none, List.range_zero, List.foldlM_nil, Option.pure_def] at h
  split at h
  · cases h
  · rename_i findings hstray
    have hfound := foldlM_preserves (Q := fun f : Findings => f.errors ≠ []) (fun hs hf => strayEntry_errors hs hf)
      hstray herrors
    cases h
    simp [hfound]

/-- The payload was written and this is the engine right after: by `write_stream` or `write_bytes`, or by the
steps of a `write_stream` call among those of other calls. -/
inductive Written (sha256 : Bytes → Checksum) (cfg : EngineConfig) (k : Key) : Bytes → Engine → Prop
  | stream (uuid : String) (turns : List (Bytes × ℕ)) (e : Engine) (size : ℕ)
      (h : (Chunking.writeStream sha256 cfg k uuid (turns.map Turn.ofBytes) e).2 = .ok size) :
      Written sha256 cfg k (turns.map Prod.fst).flatten
        (Chunking.writeStream sha256 cfg k uuid (turns.map Turn.ofBytes) e).1
  | bytes (uuid : String) (d : Bytes) (free : ℕ) (e : Engine) (size : ℕ)
      (h : (Chunking.writeBytes sha256 cfg k uuid (.bytes d) free e).2 = .ok size) :
      Written sha256 cfg k d (Chunking.writeBytes sha256 cfg k uuid (.bytes d) free e).1
  | interleaved (id : ℕ) (uuid : String) (e : Engine) (actions : List Action) (k' : Key) (b : Bytes)
      (hid : e.writer? id = none) (ha : ∀ a ∈ actions, ∀ k' uuid', a ≠ .start id k' uuid')
      (h : ((Engine.run sha256 cfg e (.start id k uuid :: actions)).perform sha256 cfg (.publish id)).2 =
        .published k' b) :
      Written sha256 cfg k (actions.flatMap (Action.fed id)).flatten
        ((Engine.run sha256 cfg e (.start id k uuid :: actions)).step sha256 cfg (.publish id))

lemma Written.folder {d : Bytes} {e : Engine} (h : Written sha256 cfg k d e) :
    k.Valid ∧ e.folder? k.path =
      some ⟨k.objectId, k.versionId, Chunking.canonicalDir sha256 cfg.chunkSizeBytes k d⟩ := by
  cases h with
  | stream uuid turns e size h =>
    rw [Chunking.writeStream_eq_outcome] at h ⊢
    exact Chunking.outcome_ok (Prod.ext rfl h)
  | bytes uuid d free e size h =>
    rw [Chunking.writeBytes_eq_outcome] at h ⊢
    have hstored := Chunking.outcome_ok (Prod.ext rfl h)
    rwa [List.map_singleton, List.flatten_singleton] at hstored
  | interleaved id uuid e actions k' b hid ha h =>
    have hstart : (e.step sha256 cfg (.start id k uuid)).Follows cfg id k [] := Engine.follows_start hid k uuid
    have hfollows : (Engine.run sha256 cfg _ actions).Follows cfg id k _ := hstart.run ha
    exact hfollows.publish h

/-- The directory of a payload, as the chunks into which it is cut. -/
lemma Written.chunks {d : Bytes} {e : Engine} (h : Written sha256 cfg k d e) :
    k.Valid ∧ ∃ chunks, chunks.flatten = d ∧ Blocks.Cut cfg.chunkSizeBytes chunks ∧
      (e.folder? k.path).map Folder.dir = some (objectDir sha256 cfg k chunks) := by
  obtain ⟨hk, hfolder⟩ := h.folder
  have hregular := Blocks.feedAll_spec (Blocks.regular_empty cfg.chunkSizeBytes_pos) [d]
  refine ⟨hk, (({} : Blocks UInt8).feedAll cfg.chunkSizeBytes [d]).finish, ?_, hregular.1.cut, ?_⟩
  · rw [Chunking.flatten_feedAll, List.flatten_singleton]
  · rw [hfolder, Chunking.feedAll_canonical, List.flatten_singleton]
    rfl

lemma objectSize_stored (hk : k.Valid) (chunks : List Bytes) :
    objectSize k (some (objectDir sha256 cfg k chunks)) = .ok (chunks.flatten.length : ℤ) := by
  rw [objectSize, validateIds_ok.mpr hk]
  rfl

lemma iterChunks_of_readBytes {cfg' : EngineConfig} {dir : Option Dir} {d : Bytes} (h : readBytes cfg' k dir = .ok d) :
    (iterChunks cfg' k dir).2 = none ∧ (iterChunks cfg' k dir).1.flatten = d := by
  unfold readBytes at h
  split at h
  · rename_i pieces hiter
    cases h
    rw [hiter]
    exact ⟨rfl, rfl⟩
  · cases h

/-- Whatever the chunk sizes of the writer and of the reader, what is stored is read back, and it verifies
unless it has more chunks than `verify` looks at. -/
theorem write_read_verify (sha256 : Bytes → Checksum) (cfg cfg' : EngineConfig) (k : Key) (d : Bytes) (e : Engine)
    (h : Written sha256 cfg k d e) :
    let stored := (e.folder? k.path).map Folder.dir
    objectSize k stored = .ok (d.length : ℤ) ∧
      ((iterChunks cfg' k stored).2 = none ∧ (iterChunks cfg' k stored).1.flatten = d) ∧
      ((∃ r, verifyBuffered sha256 cfg' k stored = .ok r ∧ r.sizeBytes = d.length ∧ r.valid = true ∧
          r.checksum = some (sha256 d) ∧ r.corruptChunks = []) ↔
        d.length ⌈/⌉ cfg.chunkSizeBytes ≤ maxVerifyChunks) ∧
      (maxVerifyChunks < d.length ⌈/⌉ cfg.chunkSizeBytes →
        ∀ r, verifyBuffered sha256 cfg' k stored = .ok r → r.valid = false) := by
  obtain ⟨hk, chunks, rfl, hcut, hdir⟩ := h.chunks
  have hcount := length_of_cut cfg.chunkSizeBytes_pos hcut
  simp only [hdir, verifyBuffered_eq, ← hcount]
  refine ⟨objectSize_stored hk chunks, iterChunks_of_readBytes (readBytes_objectDir hk cfg' chunks), ?_, ?_⟩
  · constructor
    · rintro ⟨r, hr, -, hvalid, -⟩
      by_contra hmax
      rw [verify_oversized hk (not_le.mp hmax) hr] at hvalid
      cases hvalid
    · intro hmax
      exact ⟨_, verify_stored hk hcut hmax, rfl, rfl, rfl, rfl⟩
  · intro hmax r hr
    exact verify_oversized hk hmax hr

theorem three_bytes_read_and_verified :
    let stored := (((Chunking.writeBytes plainHash smallEngine reportKey "b" (.bytes [1, 2, 3]) 99 {}).1.folder?
      reportKey.path).map Folder.dir)
    (iterChunks ⟨10, 1, by decide, by decide⟩ reportKey stored).1.flatten = [1, 2, 3] ∧
      ∃ r, verifyBuffered plainHash ⟨10, 1, by decide, by decide⟩ reportKey stored = .ok r ∧ r.valid = true := by
  obtain ⟨-, ⟨-, hread⟩, hverify, -⟩ := write_read_verify plainHash smallEngine ⟨10, 1, by decide, by decide⟩ reportKey
    [1, 2, 3] _ (.bytes "b" [1, 2, 3] 99 {} 3 (by decide +kernel))
  obtain ⟨r, hr, -, hvalid, -⟩ := hverify.mpr (by decide)
  exact ⟨hread, r, hr, hvalid⟩

end Vault.Storage
