import Mathlib
import Vault.Storage.Engine

/-! `StorageEngine.object_size` and `iter_chunks`: the layout comes from the metadata through `int`, and the
chunks are read in pieces. A stream yields pieces and then ends, possibly with an error. -/

namespace Vault.Storage

open Vault.Common Vault.Lib

/-- The digits after the first one; a single underscore may stand between two digits. -/
def parseNumeral (acc : ℕ) : List Char → Option ℕ
  | [] => some acc
  | '_' :: c :: cs =>
    match decimalValue? c with
    | some d => parseNumeral (10 * acc + d) cs
    | none => none
  | c :: cs =>
    match decimalValue? c with
    | some d => parseNumeral (10 * acc + d) cs
    | none => none

def parseUnsigned : List Char → Option ℕ
  | [] => none
  | c :: cs =>
    match decimalValue? c with
    | some d => parseNumeral d cs
    | none => none

def parseInt (s : String) : Option ℤ :=
  match (strip s).toList with
  | '+' :: cs => (parseUnsigned cs).map Int.ofNat
  | '-' :: cs => (parseUnsigned cs).map (fun n => -Int.ofNat n)
  | cs => (parseUnsigned cs).map Int.ofNat

/-- `int(metadata[key])`, where a `KeyError`, `TypeError` or `ValueError` becomes the error given. -/
def metadataNumber (fields : Fields) (key : String) (e : EngineError) : Except EngineError ℤ :=
  match fields.get key with
  | some (.int n) => .ok n
  | some (.bool b) => .ok (if b then 1 else 0)
  | some (.float n) => .ok n
  | some (.str s) => (parseInt s).elim (.error e) .ok
  | some .infinite => .error .other
  | some .nan | some .null | some (.list _) | some .dict | none => .error e

def objectSize (k : Key) (d : Option Dir) : Except EngineError ℤ := do
  validateIds k
  let fields ← readMetadata k d
  metadataNumber fields "size_bytes" (.storage s!"Object metadata has invalid size_bytes: {k}")

def invalidLayout (k : Key) : EngineError := .storage s!"Object metadata has invalid chunk layout: {k}"

/-- The number of chunks and the size of the read buffer. -/
def streamLayout (cfg : EngineConfig) (k : Key) (d : Option Dir) : Except EngineError (ℕ × ℕ) := do
  validateIds k
  let fields ← readMetadata k d
  let count ← metadataNumber fields "chunk_count" (invalidLayout k)
  let size ← metadataNumber fields "chunk_size_bytes" (invalidLayout k)
  if count < 0 ∨ size ≤ 0 then .error (invalidLayout k)
  else .ok (count.toNat, min size.toNat cfg.chunkSizeBytes)

abbrev ByteStream := List Bytes × Option EngineError

def readChunk (readSize : ℕ) (d : Dir) (index : ℕ) : ByteStream :=
  match d.entryAt? (chunkName index) with
  | some .symlink => ([], some (.storage "Object chunk is a symlink"))
  | some (.file content _ fault) =>
    (readPieces readSize content.length content, fault.map fun _ => EngineError.other)
  | _ => ([], some .other)

def readChunks (readSize : ℕ) (d : Dir) : List ℕ → ByteStream
  | [] => ([], none)
  | index :: rest =>
    match readChunk readSize d index with
    | (pieces, some e) => (pieces, some e)
    | (pieces, none) =>
      let (more, e) := readChunks readSize d rest
      (pieces ++ more, e)

def iterChunks (cfg : EngineConfig) (k : Key) (d : Option Dir) : ByteStream :=
  match streamLayout cfg k d with
  | .error e => ([], some e)
  | .ok (count, readSize) => readChunks readSize (d.getD {}) (List.range count)

def readBytes (cfg : EngineConfig) (k : Key) (d : Option Dir) : Except EngineError Bytes :=
  match iterChunks cfg k d with
  | (pieces, none) => .ok pieces.flatten
  | (_, some e) => .error e

variable {sha256 : Bytes → Checksum} {cfg : EngineConfig} {k : Key} {d : Dir}

lemma readChunk_plain {n index : ℕ} (hn : 0 < n) {content : Bytes} {size : ℕ}
    (h : d.entryAt? (chunkName index) = some (.file content size none)) :
    readChunk n d index = (readPieces n content.length content, none) ∧
      (readChunk n d index).1.flatten = content := by
  have hread : readChunk n d index = (readPieces n content.length content, none) := by
    simp only [readChunk, h, Option.map_none]
  exact ⟨hread, by rw [hread]; exact flatten_readPieces hn le_rfl⟩

/-- Chunks that are all plain files are read to their end. -/
lemma readChunks_plain {n : ℕ} (hn : 0 < n) {indices : List ℕ} {contents : List Bytes}
    (h : List.Forall₂ (fun i c => ∃ size, d.entryAt? (chunkName i) = some (.file c size none)) indices contents) :
    (readChunks n d indices).2 = none ∧ (readChunks n d indices).1.flatten = contents.flatten := by
  induction h with
  | nil => exact ⟨rfl, rfl⟩
  | @cons i c indices contents hi _ ih =>
    obtain ⟨size, hi⟩ := hi
    obtain ⟨hread, hflat⟩ := readChunk_plain hn hi
    simp only [readChunks, hread]
    refine ⟨ih.1, ?_⟩
    rw [List.flatten_append, ih.2, List.flatten_cons, flatten_readPieces hn le_rfl]

lemma readBytes_of_plain {count n : ℕ} (hlayout : streamLayout cfg k (some d) = .ok (count, n)) (hn : 0 < n)
    {contents : List Bytes} (h : List.Forall₂ (fun i c => ∃ size, d.entryAt? (chunkName i) = some (.file c size none))
      (List.range count) contents) : readBytes cfg k (some d) = .ok contents.flatten := by
  obtain ⟨hend, hflat⟩ := readChunks_plain hn h
  unfold readBytes iterChunks
  rw [hlayout]
  simp only [Option.getD_some]
  rw [← hflat]
  revert hend
  generalize readChunks _ _ _ = stream
  intro hend
  obtain ⟨pieces, e⟩ := stream
  cases hend
  rfl

lemma lookup_chunkEntries (chunks : List Bytes) (i : ℕ) (h : i < chunks.length) :
    Table.lookup Prod.fst (chunkName i) (chunkEntries chunks) = some (chunkName i, Entry.plain chunks[i]) := by
  have hnodup : ((chunkEntries chunks).map Prod.fst).Nodup := by
    have hnames : (chunkEntries chunks).map Prod.fst = (List.range chunks.length).map chunkName :=
      List.ext_getElem (by simp [chunkEntries]) fun i hi hi' => by simp [chunkEntries]
    rw [hnames]
    exact List.nodup_range.map chunkName_injective
  refine (Table.lookup_iff hnodup).mpr ⟨List.mem_mapIdx.mpr ⟨i, h, rfl⟩, rfl⟩

lemma entryAt?_objectDir (chunks : List Bytes) (i : ℕ) (h : i < chunks.length) :
    (objectDir sha256 cfg k chunks).entryAt? (chunkName i) = some (Entry.plain chunks[i]) := by
  rw [Dir.entryAt?, objectDir, lookup_chunkEntries chunks i h]
  rfl

/-- What a write stored is what a read returns, for every size of the read buffer. -/
lemma readBytes_objectDir (hk : k.Valid) (cfg' : EngineConfig) (chunks : List Bytes) :
    readBytes cfg' k (some (objectDir sha256 cfg k chunks)) = .ok chunks.flatten := by
  have hlayout : streamLayout cfg' k (some (objectDir sha256 cfg k chunks)) =
      .ok (chunks.length, min cfg.chunkSizeBytes cfg'.chunkSizeBytes) := by
    simp [streamLayout, validateIds_ok.mpr hk, readMetadata, objectDir, metadataNumber, Fields.get,
      objectFields, bind, Except.bind, List.lookup, cfg.chunkSizeBytes_pos.ne']
  have hfiles : List.Forall₂ (fun i c => ∃ size,
      (objectDir sha256 cfg k chunks).entryAt? (chunkName i) = some (.file c size none))
      (List.range chunks.length) chunks := by
    rw [List.forall₂_iff_get]
    refine ⟨by simp, fun i hi hi' => ?_⟩
    simp only [List.get_eq_getElem, List.getElem_range]
    exact ⟨_, entryAt?_objectDir chunks i hi'⟩
  have hpos : 0 < min cfg.chunkSizeBytes cfg'.chunkSizeBytes :=
    lt_min cfg.chunkSizeBytes_pos cfg'.chunkSizeBytes_pos
  exact readBytes_of_plain hlayout hpos hfiles

end Vault.Storage
