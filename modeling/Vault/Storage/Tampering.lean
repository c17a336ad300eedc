import Vault.Storage.Soundness

/-! Changes to the chunks of a written object. `verify` finds the chunks by the names that it makes, and judges all
other `chunk-` entries by reading their six digits back. `str.isdigit` admits more than the digits that
`_chunk_name` writes: digits that `int` refuses end the verification, and an entry whose foreign digits spell the
index of a chunk goes unnoticed. -/

namespace Vault.Storage

open Vault.Common Vault.Lib

/-- The directory with these files in the place of its chunks. -/
def Dir.holding (d : Dir) (files : List (Text × Bytes)) : Dir :=
  { d with entries := files.map fun f => (f.1, .plain f.2) }

/-- The files are those of the directory. -/
def Untouched (d : Dir) (files : List (Text × Bytes)) : Prop :=
  ∀ name content, (name, content) ∈ files ↔ (name, .plain content) ∈ d.entries

/-- Only the contents of the files may differ from those of the directory. -/
def SameNames (d : Dir) (files : List (Text × Bytes)) : Prop :=
  ∀ name, name ∈ files.map Prod.fst ↔ name ∈ d.entries.map Prod.fst

/-- Tampering with the chunks is detected exactly. -/
def TamperingDetected (sha256 : Bytes → Checksum) (cfg : EngineConfig) (k : Key) (d : Dir)
    (files : List (Text × Bytes)) : Prop :=
  ∃ r, verifyBuffered sha256 cfg k (some (d.holding files)) = .ok r ∧ (r.valid = true ↔ Untouched d files) ∧
    (SameNames d files → r.corruptChunks = (List.range d.entries.length).filter fun i =>
      (d.holding files).entryAt? (chunkName i) ≠ d.entryAt? (chunkName i))

/-- No file is named with digits that `int` does not read. -/
def Readable (files : List (Text × Bytes)) : Prop := ∀ f ∈ files, parseChunkIndex f.1 ≠ none

instance (files : List (Text × Bytes)) : Decidable (Readable files) := inferInstanceAs (Decidable (∀ f ∈ files, _))

/-- All chunks are as they were, and the only additions are names that read as the index of one of them. -/
def Disguised (d : Dir) (files : List (Text × Bytes)) : Prop :=
  (∀ name content, (name, .plain content) ∈ d.entries → (name, content) ∈ files) ∧
    (∀ f ∈ files, ∃ i < d.entries.length, parseChunkIndex f.1 = some (some i)) ∧
    ∃ f ∈ files, f.1 ∉ d.entries.map Prod.fst

section Files

variable {d : Dir} {files : List (Text × Bytes)} {name : Text} {content : Bytes}

lemma entryAt?_holding (hnodup : (files.map Prod.fst).Nodup) :
    (d.holding files).entryAt? name = some (.plain content) ↔ (name, content) ∈ files := by
  have hnames : (((d.holding files).entries).map Prod.fst).Nodup := by
    rw [Dir.holding, List.map_map]
    exact hnodup
  rw [Dir.entryAt?, Option.map_eq_some_iff]
  constructor
  · rintro ⟨row, hrow, he⟩
    obtain ⟨f, hf, rfl⟩ := List.mem_map.mp (Table.lookup_mem hrow)
    have hkey : (f.1, Entry.plain f.2).1 = name := Table.lookup_key hrow
    obtain rfl : f.1 = name := hkey
    obtain rfl : f.2 = content := by
      injection he
    exact hf
  · intro hf
    exact ⟨(name, .plain content), (Table.lookup_iff hnames).mpr ⟨List.mem_map.mpr ⟨_, hf, rfl⟩, rfl⟩, rfl⟩

lemma entryAt?_holding_plain {entry : Entry} (h : (d.holding files).entryAt? name = some entry) :
    ∃ content, entry = .plain content := by
  obtain ⟨row, hrow, rfl⟩ := Option.map_eq_some_iff.mp h
  obtain ⟨f, -, rfl⟩ := List.mem_map.mp (Table.lookup_mem hrow)
  exact ⟨f.2, rfl⟩

lemma mem_chunkEntries {chunks : List Bytes} :
    (name, Entry.plain content) ∈ chunkEntries chunks ↔ ∃ i, name = chunkName i ∧ chunks[i]? = some content := by
  rw [chunkEntries, List.mem_mapIdx]
  constructor
  · rintro ⟨i, hi, he⟩
    cases he
    exact ⟨i, rfl, List.getElem?_eq_getElem hi⟩
  · rintro ⟨i, rfl, hi⟩
    obtain ⟨hlt, rfl⟩ := List.getElem?_eq_some_iff.mp hi
    exact ⟨i, hlt, rfl⟩

lemma mem_chunkNames {chunks : List Bytes} :
    name ∈ (chunkEntries chunks).map Prod.fst ↔ ∃ i < chunks.length, name = chunkName i := by
  rw [List.mem_map]
  constructor
  · rintro ⟨e, he, rfl⟩
    obtain ⟨i, hi, rfl⟩ := List.mem_mapIdx.mp he
    exact ⟨i, hi, rfl⟩
  · rintro ⟨i, hi, rfl⟩
    exact ⟨_, List.mem_mapIdx.mpr ⟨i, hi, rfl⟩, rfl⟩

end Files

section Corrupt

variable {sha256 : Bytes → Checksum} {l : Layout} {d : Dir} {f g : Findings} {index j : ℕ}

lemma blame_corrupt {message : String} : j ∈ (f.blame index message).corrupt ↔ j ∈ f.corrupt ∨ j = index := by
  simp [Findings.blame]

lemma checkChunkSize_corrupt {size : ℕ} : j ∈ (checkChunkSize l index size f).corrupt ↔
    j ∈ f.corrupt ∨ j = index ∧ ¬∀ expected ∈ expectedChunkSize l index, (size : ℤ) = expected := by
  unfold checkChunkSize
  cases expectedChunkSize l index with
  | none => simp
  | some expected =>
    dsimp only
    split_ifs with he
    · simp [he]
    · simp [he, blame_corrupt]

lemma checkChunkDigest_corrupt {content : Bytes} : j ∈ (checkChunkDigest sha256 l index content f).corrupt ↔
    j ∈ f.corrupt ∨ j = index ∧ ¬l.chunkChecksums[index]? = some (.str (toString (sha256 content))) := by
  unfold checkChunkDigest
  cases l.chunkChecksums[index]? with
  | none => simp [blame_corrupt]
  | some item =>
    dsimp only
    split_ifs with he
    · simp [he]
    · simp [he, blame_corrupt]

/-- The chunk is blamed unless it is as announced. -/
lemma measureChunk_corrupt (h : measureChunk sha256 l d f index = some g) :
    j ∈ g.corrupt ↔ j ∈ f.corrupt ∨ j = index ∧ ¬CleanChunk sha256 l d index := by
  unfold measureChunk at h
  unfold CleanChunk
  split at h <;> cases h
  · next hentry => simp [hentry, blame_corrupt]
  · next hentry => simp [hentry, blame_corrupt]
  · next content size fault hentry =>
    rw [hentry]
    unfold measureFile
    cases fault with
    | some error =>
      rw [blame_corrupt, checkChunkSize_corrupt]
      simp
      tauto
    | none =>
      dsimp only
      rw [checkChunkDigest_corrupt, checkChunkSize_corrupt]
      simp only [Option.some.injEq, Entry.file.injEq, and_true, ↓existsAndEq, true_and, not_and_or, and_or_left, or_assoc]
  · next hentry => simp [hentry, blame_corrupt]
  · next hentry => simp [hentry, blame_corrupt]

lemma foldlM_measureChunk_corrupt {indices : List ℕ} (h : indices.foldlM (measureChunk sha256 l d) f = some g) :
    j ∈ g.corrupt ↔ j ∈ f.corrupt ∨ j ∈ indices ∧ ¬CleanChunk sha256 l d j := by
  induction indices generalizing f with
  | nil =>
    cases h
    simp
  | cons i indices ih =>
    rw [List.foldlM_cons] at h
    cases hm : measureChunk sha256 l d f i with
    | none => simp [hm] at h
    | some f' =>
      rw [hm] at h
      rw [ih h, measureChunk_corrupt hm, List.mem_cons, or_assoc]
      refine or_congr_right ⟨?_, ?_⟩
      · rintro (⟨rfl, hbad⟩ | ⟨hj, hbad⟩)
        · exact ⟨Or.inl rfl, hbad⟩
        · exact ⟨Or.inr hj, hbad⟩
      · rintro ⟨rfl | hj, hbad⟩
        · exact Or.inl ⟨rfl, hbad⟩
        · exact Or.inr ⟨hj, hbad⟩

/-- Sorting a list of blamed indices gives those below a bound, in order. -/
lemma sort_eq_filter {n : ℕ} {blamed : List ℕ} {p : ℕ → Bool} (h : ∀ j, j ∈ blamed ↔ j < n ∧ p j = true) :
    blamed.dedup.mergeSort (· ≤ ·) = (List.range n).filter p := by
  have hperm : (blamed.dedup.mergeSort (· ≤ ·)).Perm ((List.range n).filter p) := by
    refine (List.mergeSort_perm _ _).trans ((List.perm_ext_iff_of_nodup (List.nodup_dedup _)
      (List.nodup_range.filter p)).mpr fun j => ?_)
    rw [List.mem_dedup, h, List.mem_filter, List.mem_range]
  refine hperm.eq_of_pairwise (fun a b _ _ hab hba => Nat.le_antisymm hab hba) ?_ ?_
  · have hsorted : (blamed.dedup.mergeSort (· ≤ ·)).Pairwise fun a b => decide (a ≤ b) = true := by
      refine List.pairwise_mergeSort (fun a b c hab hbc => ?_) (fun a b => ?_) blamed.dedup
      · simp only [decide_eq_true_eq] at hab hbc ⊢
        exact hab.trans hbc
      · simpa using Nat.le_total a b
    exact hsorted.imp (by simp)
  · exact List.Pairwise.filter p (List.pairwise_lt_range.imp Nat.le_of_lt)

end Corrupt

section Tampering

variable {sha256 : Bytes → Checksum} {cfg cfg' : EngineConfig} {k : Key} {chunks : List Bytes}
  {files : List (Text × Bytes)}

/-- SHA-256 tells the contents of the files from those of the chunks. -/
def CollisionFree (sha256 : Bytes → Checksum) (chunks : List Bytes) (files : List (Text × Bytes)) : Prop :=
  ∀ f ∈ files, ∀ c ∈ chunks, sha256 f.2 = sha256 c → f.2 = c

lemma toString_checksum_injective {c c' : Checksum} (h : toString c = toString c') : c = c' := by
  have hparse := congrArg parseChecksum? h
  rw [parseChecksum?_toString, parseChecksum?_toString] at hparse
  exact Option.some.inj hparse

/-- A chunk passes exactly when it is the one that was written. -/
lemma cleanChunk_iff (h : Blocks.Cut cfg.chunkSizeBytes chunks) (hnodup : (files.map Prod.fst).Nodup)
    (hfree : CollisionFree sha256 chunks files) {i : ℕ} (hi : i < chunks.length) :
    CleanChunk sha256 (storedLayout sha256 cfg chunks) ((objectDir sha256 cfg k chunks).holding files) i ↔
      (chunkName i, chunks[i]) ∈ files := by
  have hdigest : (storedLayout sha256 cfg chunks).chunkChecksums[i]? = some (.str (toString (sha256 chunks[i]))) := by
    simp [storedLayout, hi]
  unfold CleanChunk
  rw [expectedChunkSize_stored h hi, hdigest]
  constructor
  · rintro ⟨content, size, hentry, -, hsum⟩
    obtain ⟨content', he⟩ := entryAt?_holding_plain hentry
    rw [he] at hentry
    cases he
    have hfile := (entryAt?_holding hnodup).mp hentry
    have hsame : content = chunks[i] := by
      refine hfree _ hfile _ (List.getElem_mem hi) (toString_checksum_injective ?_)
      injection hsum with hsum
      injection hsum with hsum
      exact hsum.symm
    rwa [hsame] at hfile
  · intro hfile
    exact ⟨chunks[i], chunks[i].length, (entryAt?_holding hnodup).mpr hfile, by simp, rfl⟩

variable (hnamed : ∀ f ∈ files, f.1.HasChunkPrefix)
include hnamed

lemma unparsed_holding (d : Dir) : (d.holding files).Unparsed ↔ ¬Readable files := by
  unfold Dir.Unparsed Readable
  push Not
  constructor
  · rintro ⟨name, hname, -, hparse⟩
    obtain ⟨row, hrow, rfl⟩ := List.mem_map.mp hname
    obtain ⟨f, hf, rfl⟩ := List.mem_map.mp hrow
    exact ⟨f, hf, hparse⟩
  · rintro ⟨f, hf, hparse⟩
    exact ⟨f.1, List.mem_map.mpr ⟨_, List.mem_map.mpr ⟨f, hf, rfl⟩, rfl⟩, hnamed f hf, hparse⟩

omit hnamed in
/-- The written files under their own names leave no trace among the entries. -/
lemma foldlM_strayEntry_same {n : ℕ} (hmax : n ≤ maxVerifyChunks) {names : List Text}
    (hnames : ∀ name ∈ names, ∃ i < n, name = chunkName i) (f : Findings) :
    names.foldlM (strayEntry (some n)) f = some f := by
  induction names with
  | nil => rfl
  | cons name names ih =>
    obtain ⟨i, hi, rfl⟩ := hnames name List.mem_cons_self
    have hparse := parseChunkIndex_chunkName (lt_of_lt_of_le hi hmax)
    have hstep : strayEntry (some n) f (chunkName i) = some f := by
      simp [strayEntry, hasChunkPrefix_chunkName, hparse, hi]
    rw [List.foldlM_cons, hstep]
    exact ih fun name hname => hnames name (List.mem_cons_of_mem _ hname)

lemma announced_holding {d : Dir} {n : ℕ} :
    (d.holding files).Announced (some n) ↔ ∀ f ∈ files, ∃ i < n, parseChunkIndex f.1 = some (some i) := by
  unfold Dir.Announced
  constructor
  · intro h f hf
    obtain ⟨i, m, hparse, he, hi⟩ := h f.1 (List.mem_map.mpr ⟨_, List.mem_map.mpr ⟨f, hf, rfl⟩, rfl⟩) (hnamed f hf)
    cases he
    exact ⟨i, hi, hparse⟩
  · intro h name hname _
    obtain ⟨row, hrow, rfl⟩ := List.mem_map.mp hname
    obtain ⟨f, hf, rfl⟩ := List.mem_map.mp hrow
    obtain ⟨i, hi, hparse⟩ := h f hf
    exact ⟨i, n, hparse, rfl, hi⟩

end Tampering

section Detection

variable {sha256 : Bytes → Checksum} {cfg : EngineConfig} {k : Key} {chunks : List Bytes}
  {files : List (Text × Bytes)}

lemma untouched_iff (hnodup : (files.map Prod.fst).Nodup) :
    Untouched (objectDir sha256 cfg k chunks) files ↔
      (∀ i (hi : i < chunks.length), (chunkName i, chunks[i]) ∈ files) ∧
        ∀ f ∈ files, f.1 ∈ (chunkEntries chunks).map Prod.fst := by
  have hentries : (objectDir sha256 cfg k chunks).entries = chunkEntries chunks := rfl
  unfold Untouched
  simp only [hentries]
  constructor
  · intro h
    refine ⟨fun i hi => ?_, fun f hf => ?_⟩
    · exact (h _ _).mpr (mem_chunkEntries.mpr ⟨i, rfl, List.getElem?_eq_getElem hi⟩)
    · exact List.mem_map.mpr ⟨_, (h f.1 f.2).mp hf, rfl⟩
  · rintro ⟨hall, hnames⟩ name content
    constructor
    · intro hf
      obtain ⟨i, hi, rfl⟩ := mem_chunkNames.mp (hnames _ hf)
      have hsame := Table.eq_of_key hnodup hf (hall i hi) rfl
      cases hsame
      exact mem_chunkEntries.mpr ⟨i, rfl, List.getElem?_eq_getElem hi⟩
    · intro he
      obtain ⟨i, rfl, hi⟩ := mem_chunkEntries.mp he
      obtain ⟨hlt, rfl⟩ := List.getElem?_eq_some_iff.mp hi
      exact hall i hlt

lemma chunks_kept_iff : (∀ name content, (name, Entry.plain content) ∈ chunkEntries chunks → (name, content) ∈ files) ↔
    ∀ i (hi : i < chunks.length), (chunkName i, chunks[i]) ∈ files := by
  constructor
  · intro h i hi
    exact h _ _ (mem_chunkEntries.mpr ⟨i, rfl, List.getElem?_eq_getElem hi⟩)
  · intro h name content he
    obtain ⟨i, rfl, hi⟩ := mem_chunkEntries.mp he
    obtain ⟨hlt, rfl⟩ := List.getElem?_eq_some_iff.mp hi
    exact h i hlt

lemma verify_holding (hk : k.Valid) (hnamed : ∀ f ∈ files, f.1.HasChunkPrefix) (hread : Readable files) :
    ∃ r, verify sha256 k (some ((objectDir sha256 cfg k chunks).holding files)) = .ok r ∧
      inspect sha256 k (objectFields sha256 cfg k chunks) ((objectDir sha256 cfg k chunks).holding files) = .ok r := by
  have hmeta : readMetadata k (some ((objectDir sha256 cfg k chunks).holding files)) =
      .ok (objectFields sha256 cfg k chunks) := rfl
  have hi := inspected sha256 k (objectFields sha256 cfg k chunks) ((objectDir sha256 cfg k chunks).holding files)
  have hv : verify sha256 k (some ((objectDir sha256 cfg k chunks).holding files)) =
      inspect sha256 k (objectFields sha256 cfg k chunks) ((objectDir sha256 cfg k chunks).holding files) :=
    verify_of_fields hk hmeta
  rw [hv]
  generalize inspect sha256 k (objectFields sha256 cfg k chunks) ((objectDir sha256 cfg k chunks).holding files) = x at hi
  cases hi with
  | unlisted r hl => exact absurd rfl hl
  | unparsed message hl hu => exact absurd hread ((unparsed_holding hnamed _).mp hu)
  | blocked hl hu hb =>
    obtain ⟨i, -, hentry⟩ := hb
    obtain ⟨content, he⟩ := entryAt?_holding_plain hentry
    cases he
  | measured r => exact ⟨r, rfl, rfl⟩

variable (hcut : Blocks.Cut cfg.chunkSizeBytes chunks) (hmax : chunks.length ≤ maxVerifyChunks)
  (hnodup : (files.map Prod.fst).Nodup) (hfree : CollisionFree sha256 chunks files)
include hcut hmax hnodup hfree

/-- The object passes exactly when the written chunks are there and no name reads as anything else. -/
lemma valid_holding_iff (hnamed : ∀ f ∈ files, f.1.HasChunkPrefix) {r : VerificationResult}
    (hr : inspect sha256 k (objectFields sha256 cfg k chunks) ((objectDir sha256 cfg k chunks).holding files) = .ok r) :
    r.valid = true ↔ (∀ f ∈ files, ∃ i < chunks.length, parseChunkIndex f.1 = some (some i)) ∧
      ∀ i (hi : i < chunks.length), (chunkName i, chunks[i]) ∈ files := by
  obtain ⟨found, findings, hfound, hfindings, hcount, -, -, -, hvalid⟩ := inspect_ok rfl hr
  have hclean := clean_findings hfound hfindings
  rw [readLayout_stored hcut hmax] at hfound hfindings hcount hvalid hclean
  have hlength : r.chunkCount = chunks.length := hcount
  rw [hlength] at hfindings hclean
  have hannounced : ((objectDir sha256 cfg k chunks).holding files).Announced
      (storedLayout sha256 cfg chunks).chunkCount ↔ _ := announced_holding hnamed
  have hchunks : (∀ i < chunks.length, CleanChunk sha256 (storedLayout sha256 cfg chunks)
      ((objectDir sha256 cfg k chunks).holding files) i) ↔
      ∀ i (hi : i < chunks.length), (chunkName i, chunks[i]) ∈ files :=
    forall₂_congr fun i hi => cleanChunk_iff hcut hnodup hfree hi
  simp only [true_and, hannounced, hchunks] at hclean
  rw [hvalid, hclean]
  refine and_iff_left_of_imp fun hpass => ?_
  have hall := hpass.2
  have hfiles : List.Forall₂ (fun i c => ∃ size, ((objectDir sha256 cfg k chunks).holding files).entryAt? (chunkName i) =
      some (.file c size none)) (List.range chunks.length) chunks := by
    rw [List.forall₂_iff_get]
    refine ⟨by simp, fun i hi hi' => ?_⟩
    simp only [List.get_eq_getElem, List.getElem_range]
    exact ⟨_, (entryAt?_holding hnodup).mpr (hall i hi')⟩
  have hbytes : findings.bytes = chunks.flatten := by
    rw [foldlM_measureChunk_bytes hfindings hfiles, bytes_of_foldlM hfound, List.nil_append]
  simp [totalErrors, storedLayout, hbytes]

/-- Of files under their written names, those are blamed whose content is another. -/
lemma corrupt_holding {r : VerificationResult}
    (hr : inspect sha256 k (objectFields sha256 cfg k chunks) ((objectDir sha256 cfg k chunks).holding files) = .ok r)
    (hnames : ∀ f ∈ files, f.1 ∈ (chunkEntries chunks).map Prod.fst) :
    r.corruptChunks = (List.range chunks.length).filter fun i =>
      ((objectDir sha256 cfg k chunks).holding files).entryAt? (chunkName i) ≠
        (objectDir sha256 cfg k chunks).entryAt? (chunkName i) := by
  obtain ⟨found, findings, hfound, hfindings, hcount, -, -, hcorrupt, -⟩ := inspect_ok rfl hr
  rw [readLayout_stored hcut hmax] at hfound hfindings hcount
  have hlength : r.chunkCount = chunks.length := hcount
  rw [hlength] at hfindings
  have hquiet : (((objectDir sha256 cfg k chunks).holding files).entries.map Prod.fst).foldlM
      (strayEntry (storedLayout sha256 cfg chunks).chunkCount) {} = some {} := by
    refine foldlM_strayEntry_same hmax (fun name hname => ?_) {}
    obtain ⟨row, hrow, rfl⟩ := List.mem_map.mp hname
    obtain ⟨f, hf, rfl⟩ := List.mem_map.mp hrow
    exact mem_chunkNames.mp (hnames f hf)
  cases hfound.symm.trans hquiet
  rw [hcorrupt]
  refine sort_eq_filter fun j => ?_
  rw [foldlM_measureChunk_corrupt hfindings, List.mem_range]
  simp only [List.not_mem_nil, false_or, decide_eq_true_eq]
  refine and_congr_right fun hj => not_congr ?_
  rw [cleanChunk_iff hcut hnodup hfree hj, entryAt?_objectDir chunks j hj, entryAt?_holding hnodup]

end Detection

/-- For a written object and any files in the place of its chunks, tampering is detected exactly unless a name has
digits that `int` does not read, or names in foreign digits are all that was added. -/
theorem tampering_detected_iff (sha256 : Bytes → Checksum) (cfg cfg' : EngineConfig) (k : Key) (data : Bytes)
    (e : Engine) (h : Written sha256 cfg k data e) (hmax : data.length ⌈/⌉ cfg.chunkSizeBytes ≤ maxVerifyChunks)
    (dir : Dir) (hdir : (e.folder? k.path).map Folder.dir = some dir) (files : List (Text × Bytes))
    (hnamed : ∀ f ∈ files, f.1.HasChunkPrefix) (hnodup : (files.map Prod.fst).Nodup)
    (hfree : ∀ f ∈ files, ∀ name content, (name, .plain content) ∈ dir.entries →
      sha256 f.2 = sha256 content → f.2 = content) :
    TamperingDetected sha256 cfg' k dir files ↔ Readable files ∧ ¬Disguised dir files := by
  obtain ⟨hk, chunks, rfl, hcut, hstored⟩ := h.chunks
  obtain rfl := Option.some.inj (hdir.symm.trans hstored)
  rw [← length_of_cut cfg.chunkSizeBytes_pos hcut] at hmax
  have hentries : (objectDir sha256 cfg k chunks).entries = chunkEntries chunks := rfl
  have hlength : (chunkEntries chunks).length = chunks.length := by simp [chunkEntries]
  have hfree' : CollisionFree sha256 chunks files := by
    intro f hf c hc hsum
    obtain ⟨i, hi, rfl⟩ := List.mem_iff_getElem.mp hc
    exact hfree f hf (chunkName i) _ (mem_chunkEntries.mpr ⟨i, rfl, List.getElem?_eq_getElem hi⟩) hsum
  by_cases hread : Readable files
  · obtain ⟨r, hv, hr⟩ : ∃ r, verify sha256 k (some ((objectDir sha256 cfg k chunks).holding files)) = .ok r ∧ _ :=
      verify_holding hk hnamed hread
    have hvalid := valid_holding_iff hcut hmax hnodup hfree' hnamed hr
    have huntouched : Untouched (objectDir sha256 cfg k chunks) files ↔ _ := untouched_iff hnodup
    have hcorrupt : SameNames (objectDir sha256 cfg k chunks) files → r.corruptChunks = _ := fun hsame =>
      corrupt_holding hcut hmax hnodup hfree' hr fun f hf => (hsame f.1).mp (List.mem_map_of_mem hf)
    rw [and_iff_right hread]
    unfold TamperingDetected Disguised
    simp only [verifyBuffered_eq, hv, hentries, hlength, chunks_kept_iff, Except.ok.injEq, exists_eq_left']
    rw [and_iff_left hcorrupt, hvalid, huntouched]
    constructor
    · rintro hiff ⟨hkept, hnamed, f, hf, hnew⟩
      exact hnew ((hiff.mp ⟨hnamed, hkept⟩).2 f hf)
    · intro hno
      constructor
      · rintro ⟨hnamed, hkept⟩
        refine ⟨hkept, fun f hf => ?_⟩
        by_contra hnew
        exact hno ⟨hkept, hnamed, f, hf, hnew⟩
      · rintro ⟨hkept, hnames⟩
        refine ⟨fun f hf => ?_, hkept⟩
        obtain ⟨i, hi, hname⟩ := mem_chunkNames.mp (hnames f hf)
        exact ⟨i, hi, hname ▸ parseChunkIndex_chunkName (lt_of_lt_of_le hi hmax)⟩
  · refine iff_of_false ?_ fun hc => hread hc.1
    rintro ⟨r, hr, -⟩
    rw [verifyBuffered_eq] at hr
    have hmeta : readMetadata k (some ((objectDir sha256 cfg k chunks).holding files)) =
        .ok (objectFields sha256 cfg k chunks) := rfl
    have hi := inspected sha256 k (objectFields sha256 cfg k chunks) ((objectDir sha256 cfg k chunks).holding files)
    rw [verify_of_fields hk hmeta, Option.getD_some] at hr
    rw [hr] at hi
    have hunparsed := (unparsed_holding hnamed (objectDir sha256 cfg k chunks)).mpr hread
    cases hi with
    | unlisted _ hl => exact hl rfl
    | measured _ _ _ hu => exact hu hunparsed

/-- A hash that tells contents by their first byte. -/
lemma length_headDigits (b : Bytes) : (Fin.ofNat 16 (b.headD 0).toNat :: List.replicate 63 0).length = 64 := rfl

def headHash (b : Bytes) : Checksum := ⟨Fin.ofNat 16 (b.headD 0).toNat :: List.replicate 63 0, length_headDigits b⟩

def storedReport : Dir := objectDir headHash smallEngine reportKey [[1, 2], [3]]

def engineWithReport : Engine :=
  (Chunking.writeBytes headHash smallEngine reportKey "b" (.bytes [1, 2, 3]) 99 {}).1

theorem rewritten_chunk_detected :
    TamperingDetected headHash smallEngine reportKey storedReport [(chunkName 0, [1, 2]), (chunkName 1, [7])] := by
  refine (tampering_detected_iff headHash smallEngine smallEngine reportKey [1, 2, 3] engineWithReport
    (.bytes "b" [1, 2, 3] 99 {} 3 (by decide +kernel)) (by decide) storedReport (by decide +kernel) _ ?_ ?_ ?_).mpr
    ⟨?_, ?_⟩
  · decide +kernel
  · decide +kernel
  · intro f hf name content hc
    obtain ⟨i, rfl, hi⟩ := mem_chunkEntries.mp hc
    have htold : ∀ f ∈ [(chunkName 0, [1, 2]), (chunkName 1, [7])], ∀ content ∈ ([[1, 2], [3]] : List Bytes),
        headHash f.2 = headHash content → f.2 = content := by
      decide +kernel
    exact htold f hf content (List.mem_of_getElem? hi)
  · decide +kernel
  · rintro ⟨-, -, f, hf, hnew⟩
    rcases List.mem_pair.mp hf with rfl | rfl
    · exact hnew (mem_chunkNames.mpr ⟨0, by decide, rfl⟩)
    · exact hnew (mem_chunkNames.mpr ⟨1, by decide, rfl⟩)

/-- Six Arabic zeros after the prefix spell the index of the first chunk. -/
def foreignName : Text := (chunkPrefix ++ List.replicate 6 (Char.ofNat 0x660)).map Sum.inl

/-- Nothing that was written has changed, but there is a file more, and the object is valid. -/
theorem foreign_digits_unnoticed :
    (∃ r, verifyBuffered headHash smallEngine reportKey
        (some (storedReport.holding [(chunkName 0, [1, 2]), (chunkName 1, [3]), (foreignName, [9])])) = .ok r ∧
        r.valid = true) ∧
      ¬TamperingDetected headHash smallEngine reportKey storedReport
        [(chunkName 0, [1, 2]), (chunkName 1, [3]), (foreignName, [9])] := by
  have hrun : verifyBuffered headHash smallEngine reportKey
      (some (storedReport.holding [(chunkName 0, [1, 2]), (chunkName 1, [3]), (foreignName, [9])])) = .ok
        { objectId := "report", versionId := "v1", sizeBytes := 3, valid := true, checksum := some (headHash [1, 2, 3]),
          chunkCount := 2, corruptChunks := [], errors := [] } := by
    decide +kernel
  refine ⟨⟨_, hrun, rfl⟩, ?_⟩
  rintro ⟨r, hr, hiff, -⟩
  cases hrun.symm.trans hr
  have hnew := ((hiff.mp rfl) foreignName [9]).mp (by simp)
  obtain ⟨i, hname, hi⟩ := mem_chunkEntries.mp hnew
  have hlt : i < 2 := (List.getElem?_eq_some_iff.mp hi).1
  interval_cases i <;> exact absurd hname (by decide)

end Vault.Storage
