import Vault.Storage.Disk

/-! `StorageEngine.verify`: the metadata is checked field by field, then every chunk that it announces is
inspected, read and hashed, and the measured checksum and size are reported with all the errors found.
Whatever the metadata says, what is measured is the concatenation of the chunks that could be read. -/

namespace Vault.Storage

open Vault.Common Vault.Lib

structure VerificationResult where
  objectId : String
  versionId : String
  sizeBytes : ℕ
  valid : Bool
  checksum : Option Checksum
  chunkCount : ℕ
  corruptChunks : List ℕ
  errors : List Text
  deriving DecidableEq, Repr

def maxVerifyChunks : ℕ := 1000000

def hexDigits : List Char := "0123456789abcdef".toList

def isSha256 (s : String) : Bool := s.toList.length == 64 && s.toList.all (· ∈ hexDigits)

def metadataInt (fields : Fields) (key : String) : Option ℤ × List Text :=
  match fields.get key with
  | some (.int n) => (some n, [])
  | _ => (none, [.ofString s!"invalid {key}"])

def rejectInt (p : ℤ → Bool) (message : String) : Option ℤ → Option ℤ × List Text
  | some n => if p n then (none, [.ofString message]) else (some n, [])
  | none => (none, [])

/-- The fields that passed their checks. -/
structure Layout where
  sizeBytes : Option ℕ
  chunkSizeBytes : Option ℕ
  chunkCount : Option ℕ
  checksum : Option String
  chunkChecksums : List Item
  deriving DecidableEq, Repr

def expectedChecksum (fields : Fields) : Option String × List Text :=
  match fields.get "checksum" with
  | some (.str s) => if isSha256 s then (some s, []) else (none, [.ofString "invalid checksum metadata"])
  | _ => (none, [.ofString "invalid checksum metadata"])

def invalidItems (items : List Item) : List Text :=
  (items.zipIdx.filter (fun p => match p.1 with | .str s => !isSha256 s | _ => true)).map
    (fun p => .ofString s!"invalid checksum metadata for chunk {p.2}")

def expectedChunkChecksums (fields : Fields) : List Item × List Text :=
  match fields.get "chunk_checksums" with
  | some (.list items) =>
    if maxVerifyChunks < items.length then
      ([], [.ofString "chunk_checksums exceeds verification limit"])
    else (items, invalidItems items)
  | _ => ([], [.ofString "invalid chunk_checksums metadata"])

def chunkCountFor (sizeBytes chunkSizeBytes : ℕ) : ℕ :=
  if sizeBytes = 0 then 0 else (sizeBytes + chunkSizeBytes - 1) / chunkSizeBytes

def countErrors (l : Layout) : List Text :=
  (match l.chunkCount with
    | some count =>
      if l.chunkChecksums.length = count then []
      else [.ofString "chunk_checksums length does not match chunk_count"]
    | none => []) ++
  match l.sizeBytes, l.chunkSizeBytes, l.chunkCount with
  | some size, some chunkSize, some count =>
    if chunkCountFor size chunkSize = count then []
    else [.ofString "chunk_count does not match size_bytes"]
  | _, _, _ => []

def readLayout (k : Key) (fields : Fields) : Layout × List Text :=
  let objectErrors :=
    if fields.get "object_id" = some (.str k.objectId) then []
    else [Text.ofString "metadata object_id mismatch"]
  let versionErrors :=
    if fields.get "version_id" = some (.str k.versionId) then []
    else [Text.ofString "metadata version_id mismatch"]
  let (size, e₁) := metadataInt fields "size_bytes"
  let (chunkSize, e₂) := metadataInt fields "chunk_size_bytes"
  let (count, e₃) := metadataInt fields "chunk_count"
  let (size, e₄) := rejectInt (· < 0) "invalid size_bytes" size
  let (chunkSize, e₅) := rejectInt (· ≤ 0) "invalid chunk_size_bytes" chunkSize
  let (count, e₆) := rejectInt (· < 0) "invalid chunk_count" count
  let (count, e₇) := rejectInt (· > maxVerifyChunks) "chunk_count exceeds verification limit" count
  let (checksum, e₈) := expectedChecksum fields
  let (items, e₉) := expectedChunkChecksums fields
  let layout : Layout := ⟨size.map Int.toNat, chunkSize.map Int.toNat, count.map Int.toNat, checksum, items⟩
  (layout, objectErrors ++ versionErrors ++ e₁ ++ e₂ ++ e₃ ++ e₄ ++ e₅ ++ e₆ ++ e₇ ++ e₈ ++ e₉ ++
    countErrors layout)

/-- What the loops have found so far. -/
structure Findings where
  bytes : Bytes := []
  corrupt : List ℕ := []
  errors : List Text := []
  deriving DecidableEq, Repr

def Findings.blame (f : Findings) (index : ℕ) (message : String) : Findings :=
  { f with corrupt := f.corrupt ++ [index], errors := f.errors ++ [.ofString message] }

/-- `none` stands for the `ValueError` of `int`. -/
def strayEntry (count : Option ℕ) (f : Findings) (name : Text) : Option Findings :=
  if name.HasChunkPrefix then
    match parseChunkIndex name, count with
    | none, _ => none
    | some none, _ => some { f with errors := f.errors ++ [.ofString "unexpected chunk " ++ name] }
    | some (some index), some count =>
      if index < count then some f
      else some
        { f with corrupt := f.corrupt ++ [index], errors := f.errors ++ [.ofString "unexpected chunk " ++ name] }
    | some (some index), none => some
        { f with corrupt := f.corrupt ++ [index], errors := f.errors ++ [.ofString "unexpected chunk " ++ name] }
  else some f

def expectedChunkSize (l : Layout) (index : ℕ) : Option ℤ :=
  match l.sizeBytes, l.chunkSizeBytes, l.chunkCount with
  | some size, some chunkSize, some count =>
    if count ≤ index then none
    else if index + 1 < count then some chunkSize
    else some (size - (count - 1) * chunkSize)
  | _, _, _ => none

section Hashing

variable (sha256 : Bytes → Common.Checksum)

def checkChunkSize (l : Layout) (index stored : ℕ) (f : Findings) : Findings :=
  match expectedChunkSize l index with
  | some expected =>
    if (stored : ℤ) = expected then f
    else f.blame index s!"chunk {index} size mismatch: expected={expected}, actual={stored}"
  | none => f

def checkChunkDigest (l : Layout) (index : ℕ) (content : Bytes) (f : Findings) : Findings :=
  match l.chunkChecksums[index]? with
  | none => f.blame index s!"missing checksum metadata for chunk {index}"
  | some item =>
    if item = .str (toString (sha256 content)) then f
    else f.blame index s!"checksum mismatch for chunk {index}"

def measureFile (l : Layout) (index : ℕ) (content : Bytes) (size : ℕ) (fault : Option String)
    (f : Findings) : Findings :=
  let f := checkChunkSize l index size f
  let f := { f with bytes := f.bytes ++ content }
  match fault with
  | some error => f.blame index s!"unreadable chunk {index}: {error}"
  | none => checkChunkDigest sha256 l index content f

/-- `none` stands for an error that inspecting the path raises. -/
def measureChunk (l : Layout) (d : Dir) (f : Findings) (index : ℕ) : Option Findings :=
  match d.entryAt? (chunkName index) with
  | some .inaccessible => none
  | some .symlink => some (f.blame index s!"chunk {index} is a symlink")
  | some (.unstatable error) => some (f.blame index s!"cannot stat chunk {index}: {error}")
  | some (.file content size fault) => some (measureFile sha256 l index content size fault f)
  | some .other | none => some (f.blame index s!"missing chunk {index}")

def totalErrors (l : Layout) (f : Findings) : List Text :=
  (match l.sizeBytes with
    | some size =>
      if f.bytes.length = size then []
      else [.ofString s!"object size mismatch: expected={size}, actual={f.bytes.length}"]
    | none => []) ++
  match l.checksum with
  | some expected =>
    if expected = toString (sha256 f.bytes) then [] else [.ofString "object checksum mismatch"]
  | none => []

/-- The report of an object that cannot be measured. -/
def rejected (k : Key) (chunkCount : ℕ) (errors : List Text) : VerificationResult :=
  { objectId := k.objectId, versionId := k.versionId, sizeBytes := 0, valid := false, checksum := none,
    chunkCount := chunkCount, corruptChunks := [], errors := errors }

def inspect (k : Key) (fields : Fields) (d : Dir) : Except EngineError VerificationResult :=
  let (layout, errors) := readLayout k fields
  let chunkCount := layout.chunkCount.getD 0
  match d.listing with
  | some error =>
    .ok (rejected k chunkCount (errors ++ [.ofString s!"cannot inspect object directory: {error}"]))
  | none =>
    match (d.entries.map Prod.fst).foldlM (strayEntry layout.chunkCount) { errors := errors } with
    | none => .error (.value "invalid literal for int() with base 10")
    | some findings =>
      match (List.range chunkCount).foldlM (measureChunk sha256 layout d) findings with
      | none => .error .other
      | some findings =>
        let errors := findings.errors ++ totalErrors sha256 layout findings
        .ok
          { objectId := k.objectId, versionId := k.versionId, sizeBytes := findings.bytes.length,
            valid := errors.isEmpty && findings.corrupt.isEmpty,
            checksum := some (sha256 findings.bytes), chunkCount := chunkCount,
            corruptChunks := findings.corrupt.dedup.mergeSort (· ≤ ·), errors := errors }

def verify (k : Key) (d : Option Dir) : Except EngineError VerificationResult := do
  validateIds k
  match readMetadata k d with
  | .error (.storage message) => .ok (rejected k 0 [.ofString message])
  | .error e => .error e
  | .ok fields => inspect sha256 k fields (d.getD {})

end Hashing

def plainHash : Bytes → Checksum := fun _ => ⟨List.replicate 64 0, length_zeros⟩

def reportKey : Key := ⟨"report", "v1"⟩

end Vault.Storage
