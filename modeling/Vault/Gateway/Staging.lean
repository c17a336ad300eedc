import Vault.Lib.Blocks
import Vault.Metadata.Validation
import Vault.Storage.Verification

/-! `GatewayService.stage_upload` and `file_chunks`: an upload is spooled to a temporary file before anything is
written to the metadata, and every replica is sent from that file. The temporary files that exist are given by
their paths and contents; `mkstemp` hands out a path that none of them has. -/

namespace Vault.Gateway

open Vault.Common Vault.Lib Vault.Storage

def payloadTooLarge (limitBytes : ℕ) : VaultError :=
  ⟨.payloadTooLarge, s!"Upload exceeds the configured limit of {limitBytes} bytes.", 413⟩

/-- What the request stream yields next: bytes, a value of another type, or an exception. -/
inductive BodyItem
  | bytes (data : Bytes)
  | other
  | raises (e : Failure)
  deriving DecidableEq, Repr

abbrev TempFiles := List (String × Bytes)

structure StagedUpload where
  path : String
  sizeBytes : ℕ
  checksum : Checksum
  deriving DecidableEq, Repr

/-- The loop variables of `stage_upload`; a digest is kept as the bytes that went into it. -/
structure Spool where
  size : ℕ := 0
  digest : Bytes := []
  file : Bytes := []
  deriving DecidableEq, Repr

namespace Spool

def write (data : Bytes) (s : Spool) : Spool :=
  { size := s.size + data.length, digest := s.digest ++ data, file := s.file ++ data }

def accept (maxBytes : ℕ) (s : Spool) : BodyItem → Except Failure Spool
  | .raises e => .error e
  | .other => .error (.value "request body yielded a non-bytes chunk")
  | .bytes data =>
    if data.isEmpty then .ok s
    else if maxBytes < s.size + data.length then .error (.vault (payloadTooLarge maxBytes))
    else .ok (s.write data)

def acceptAll (maxBytes : ℕ) (s : Spool) : List BodyItem → Except Failure Spool
  | [] => .ok s
  | item :: body =>
    match s.accept maxBytes item with
    | .error e => .error e
    | .ok s => s.acceptAll maxBytes body

end Spool

def positiveMaxBytes : Arg ℤ → Except Failure ℕ
  | .value (.ofNat (n + 1)) => .ok (n + 1)
  | _ => .error (.value "max_bytes must be a positive integer")

def stageUpload (sha256 : Bytes → Checksum) (path : String) (maxBytes : Arg ℤ) (body : List BodyItem)
    (temp : TempFiles) : Except Failure StagedUpload × TempFiles :=
  match positiveMaxBytes maxBytes with
  | .error e => (.error e, temp)
  | .ok limit =>
    match ({} : Spool).acceptAll limit body with
    | .error e => (.error e, temp)
    | .ok s => (.ok ⟨path, s.size, sha256 s.digest⟩, (path, s.file) :: temp)

def defaultChunkSizeBytes : ℕ := 16 * 1024 * 1024

/-- The chunks that a fresh iterator over the file yields. -/
def fileChunks (path : String) (chunkSize : ℕ) (temp : TempFiles) : Option (List Bytes) :=
  (temp.lookup path).map fun content => readPieces chunkSize content.length content

section Spooling

variable {maxBytes : ℕ} {s t : Spool}

/-- The three loop variables tell of the same bytes, which stay within the limit. -/
structure Spool.Holds (maxBytes : ℕ) (content : Bytes) (s : Spool) : Prop where
  file : s.file = content
  digest : s.digest = content
  size : s.size = content.length
  bounded : content.length ≤ maxBytes

lemma Spool.Holds.accept {content data : Bytes} (h : s.Holds maxBytes content)
    (hroom : (content ++ data).length ≤ maxBytes) :
    ∃ t, s.accept maxBytes (.bytes data) = .ok t ∧ t.Holds maxBytes (content ++ data) := by
  cases data with
  | nil => exact ⟨s, rfl, by rwa [List.append_nil]⟩
  | cons b data =>
    have hfits : ¬maxBytes < s.size + (b :: data).length := by
      rw [h.size]
      rw [List.length_append] at hroom
      omega
    refine ⟨s.write (b :: data), ?_, ?_⟩
    · simp only [Spool.accept, List.isEmpty_cons, Bool.false_eq_true, if_false, hfits]
    · constructor
      · simp only [Spool.write, h.file]
      · simp only [Spool.write, h.digest]
      · simp only [Spool.write, h.size, List.length_append]
      · exact hroom

lemma Spool.Holds.refuse {content data : Bytes} (h : s.Holds maxBytes content)
    (hroom : maxBytes < (content ++ data).length) :
    s.accept maxBytes (.bytes data) = .error (.vault (payloadTooLarge maxBytes)) := by
  have hbounded := h.bounded
  rw [List.length_append] at hroom
  cases data with
  | nil =>
    simp only [List.length_nil] at hroom
    omega
  | cons b data =>
    have hover : maxBytes < s.size + (b :: data).length := by
      rw [h.size]
      exact hroom
    simp only [Spool.accept, List.isEmpty_cons, Bool.false_eq_true, if_false, hover, if_true]

/-- Why the loop stops at an item, when it has already taken `content`. -/
inductive StopsAt (maxBytes : ℕ) (content : Bytes) : BodyItem → Failure → Prop
  | raises (e : Failure) : StopsAt maxBytes content (.raises e) e
  | other : StopsAt maxBytes content .other (.value "request body yielded a non-bytes chunk")
  | tooLarge {data : Bytes} (h : maxBytes < (content ++ data).length) :
      StopsAt maxBytes content (.bytes data) (.vault (payloadTooLarge maxBytes))

lemma Spool.Holds.acceptAll {content : Bytes} (h : s.Holds maxBytes content) (body : List BodyItem) :
    (∃ chunks : List Bytes, body = chunks.map .bytes ∧ ∃ t, s.acceptAll maxBytes body = .ok t ∧
      t.Holds maxBytes (content ++ chunks.flatten)) ∨
    ∃ (chunks : List Bytes) (item : BodyItem) (rest : List BodyItem) (e : Failure),
      body = chunks.map .bytes ++ item :: rest ∧ StopsAt maxBytes (content ++ chunks.flatten) item e ∧
      s.acceptAll maxBytes body = .error e := by
  induction body generalizing s content with
  | nil =>
    left
    exact ⟨[], rfl, s, rfl, by rwa [List.flatten_nil, List.append_nil]⟩
  | cons item body ih =>
    have hstop : ∀ e, s.accept maxBytes item = .error e → s.acceptAll maxBytes (item :: body) = .error e := by
      intro e he
      simp only [Spool.acceptAll, he]
    cases item with
    | raises e =>
      right
      exact ⟨[], _, body, e, rfl, .raises e, hstop e rfl⟩
    | other =>
      right
      exact ⟨[], _, body, _, rfl, .other, hstop _ rfl⟩
    | bytes data =>
      rcases lt_or_ge maxBytes (content ++ data).length with hover | hroom
      · right
        refine ⟨[], .bytes data, body, _, rfl, .tooLarge ?_, hstop _ (h.refuse hover)⟩
        rwa [List.flatten_nil, List.append_nil]
      · obtain ⟨t, haccept, ht⟩ := h.accept hroom
        have hnext : s.acceptAll maxBytes (.bytes data :: body) = t.acceptAll maxBytes body := by
          simp only [Spool.acceptAll, haccept]
        rcases ih ht with ⟨chunks, rfl, u, hu, hholds⟩ | ⟨chunks, item, rest, e, rfl, hat, he⟩
        · left
          refine ⟨data :: chunks, rfl, u, hnext.trans hu, ?_⟩
          rwa [List.flatten_cons, ← List.append_assoc]
        · right
          refine ⟨data :: chunks, item, rest, e, rfl, ?_, hnext.trans he⟩
          rwa [List.flatten_cons, ← List.append_assoc]


variable {path : String} {temp : TempFiles}

end Spooling

end Vault.Gateway
