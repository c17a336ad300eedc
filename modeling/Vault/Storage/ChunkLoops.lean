import Vault.Storage.WriteSteps

/-! The two loops that cut an upload into chunk files. `write_stream` keeps the file of the current chunk
open and starts its digest when it opens it; `_write_iterable` collects the chunk in a buffer and starts the
next digest when it has written it. A digest is kept as the bytes that went into it, and the staging
directory as the names and the contents of its files. Each loop follows the cutting of the stream into
blocks. -/

namespace Vault.Storage

open Vault.Common Vault.Lib

abbrev Files := List (Text × Bytes)

/-- `open("xb")`, which a file of that name makes fail. -/
def Files.create (files : Files) (name : Text) (content : Bytes) : Except EngineError Files :=
  if (Table.lookup Prod.fst name files).isSome then .error .other else .ok (files ++ [(name, content)])

def Files.append (files : Files) (name : Text) (piece : Bytes) : Files :=
  Table.amend Prod.fst name (fun f => (f.1, f.2 ++ piece)) files

structure StreamLoop where
  size : ℕ := 0
  chunkIndex : ℕ := 0
  chunkWritten : ℕ := 0
  chunkHandle : Option Text := none
  chunkDigests : List Checksum := []
  objectDigest : Bytes := []
  chunkDigest : Bytes := []
  files : Files := []
  deriving DecidableEq, Repr

structure IterableLoop where
  size : ℕ := 0
  chunkIndex : ℕ := 0
  chunkBuffer : Bytes := []
  chunkDigests : List Checksum := []
  objectDigest : Bytes := []
  chunkDigest : Bytes := []
  files : Files := []
  deriving DecidableEq, Repr

section Loops

variable (sha256 : Bytes → Checksum) (chunkSizeBytes : ℕ)

namespace StreamLoop

def openChunk (l : StreamLoop) : Except EngineError (Text × StreamLoop) :=
  match l.chunkHandle with
  | some handle => .ok (handle, l)
  | none =>
    match l.files.create (chunkName l.chunkIndex) [] with
    | .error x => .error x
    | .ok files =>
      .ok (chunkName l.chunkIndex,
        { l with files := files, chunkHandle := some (chunkName l.chunkIndex), chunkWritten := 0, chunkDigest := [] })

def writePiece (handle : Text) (piece : Bytes) (l : StreamLoop) : StreamLoop :=
  { l with
    files := l.files.append handle piece
    chunkDigest := l.chunkDigest ++ piece
    objectDigest := l.objectDigest ++ piece
    chunkWritten := l.chunkWritten + piece.length
    size := l.size + piece.length }

def closeChunk (l : StreamLoop) : StreamLoop :=
  { l with
    chunkHandle := none
    chunkDigests := l.chunkDigests ++ [sha256 l.chunkDigest]
    chunkIndex := l.chunkIndex + 1 }

/-- One round of the inner loop, with what it leaves of the piece. -/
def round (l : StreamLoop) (incoming : Bytes) : Except EngineError (StreamLoop × Bytes) :=
  match l.openChunk with
  | .error x => .error x
  | .ok (handle, l) =>
    let remaining := chunkSizeBytes - l.chunkWritten
    let l := l.writePiece handle (incoming.take remaining)
    .ok (if l.chunkWritten = chunkSizeBytes then l.closeChunk sha256 else l, incoming.drop remaining)

def consume : ℕ → StreamLoop → Bytes → Except EngineError StreamLoop
  | 0, l, _ => .ok l
  | fuel + 1, l, incoming =>
    if incoming.isEmpty then .ok l
    else
      match l.round sha256 chunkSizeBytes incoming with
      | .error x => .error x
      | .ok (l, rest) => consume fuel l rest

def finish (l : StreamLoop) : StreamLoop := if l.chunkHandle.isSome then l.closeChunk sha256 else l

end StreamLoop

namespace IterableLoop

def writeChunk (l : IterableLoop) : Except EngineError IterableLoop :=
  match l.files.create (chunkName l.chunkIndex) l.chunkBuffer with
  | .error x => .error x
  | .ok files =>
    .ok { l with
      files := files
      chunkDigests := l.chunkDigests ++ [sha256 l.chunkDigest]
      chunkIndex := l.chunkIndex + 1 }

def extend (piece : Bytes) (l : IterableLoop) : IterableLoop :=
  { l with
    chunkBuffer := l.chunkBuffer ++ piece
    chunkDigest := l.chunkDigest ++ piece
    objectDigest := l.objectDigest ++ piece
    size := l.size + piece.length }

def round (l : IterableLoop) (incoming : Bytes) : Except EngineError (IterableLoop × Bytes) :=
  let remaining := chunkSizeBytes - l.chunkBuffer.length
  let l := l.extend (incoming.take remaining)
  if l.chunkBuffer.length = chunkSizeBytes then
    match l.writeChunk sha256 with
    | .error x => .error x
    | .ok l => .ok ({ l with chunkBuffer := [], chunkDigest := [] }, incoming.drop remaining)
  else .ok (l, incoming.drop remaining)

def consume : ℕ → IterableLoop → Bytes → Except EngineError IterableLoop
  | 0, l, _ => .ok l
  | fuel + 1, l, incoming =>
    if incoming.isEmpty then .ok l
    else
      match l.round sha256 chunkSizeBytes incoming with
      | .error x => .error x
      | .ok (l, rest) => consume fuel l rest

def finish (l : IterableLoop) : Except EngineError IterableLoop :=
  if l.chunkBuffer.isEmpty then .ok l else l.writeChunk sha256

end IterableLoop

end Loops

/-- The staging directory with the metadata that the loop has gathered. -/
def recordDir (chunkSizeBytes : ℕ) (k : Key) (size chunkCount : ℕ) (checksum : Checksum)
    (chunkDigests : List Checksum) (files : Files) : Dir :=
  { metadata := .document (.dict
      [("object_id", .str k.objectId), ("version_id", .str k.versionId), ("size_bytes", .int size),
        ("chunk_size_bytes", .int chunkSizeBytes), ("chunk_count", .int chunkCount),
        ("checksum", .str (toString checksum)),
        ("chunk_checksums", .list (chunkDigests.map (fun c => .str (toString c))))])
    entries := files.map (fun f => (f.1, Entry.plain f.2)) }

def chunkFiles (chunks : List Bytes) : Files := chunks.mapIdx (fun i c => (chunkName i, c))

lemma chunkFiles_concat (chunks : List Bytes) (c : Bytes) :
    chunkFiles (chunks ++ [c]) = chunkFiles chunks ++ [(chunkName chunks.length, c)] := by
  simp [chunkFiles, List.mapIdx_append]

lemma chunkFiles_ne {chunks : List Bytes} {f : Text × Bytes} (h : f ∈ chunkFiles chunks) :
    f.1 ≠ chunkName chunks.length := by
  obtain ⟨i, hi, rfl⟩ := List.mem_mapIdx.mp h
  exact fun he => hi.ne (chunkName_injective he)

lemma create_chunkFiles (chunks : List Bytes) (c : Bytes) :
    (chunkFiles chunks).create (chunkName chunks.length) c = .ok (chunkFiles (chunks ++ [c])) := by
  have hnone : Table.lookup Prod.fst (chunkName chunks.length) (chunkFiles chunks) = none :=
    Table.lookup_eq_none.mpr fun f hf => chunkFiles_ne hf
  rw [Files.create, hnone, chunkFiles_concat]
  rfl

lemma append_chunkFiles (chunks : List Bytes) (c piece : Bytes) :
    (chunkFiles (chunks ++ [c])).append (chunkName chunks.length) piece = chunkFiles (chunks ++ [c ++ piece]) := by
  have hrest := Table.amend_of_not_mem (f := fun f : Text × Bytes => (f.1, f.2 ++ piece))
    fun f (hf : f ∈ chunkFiles chunks) => chunkFiles_ne hf
  simp only [Table.amend] at hrest
  simp only [Files.append, Table.amend, chunkFiles_concat, List.map_append, List.map_singleton, hrest, if_true]

lemma recordDir_eq (sha256 : Bytes → Checksum) (cfg : EngineConfig) (k : Key) (chunks : List Bytes) :
    recordDir cfg.chunkSizeBytes k chunks.flatten.length chunks.length (sha256 chunks.flatten) (chunks.map sha256)
      (chunkFiles chunks) = objectDir sha256 cfg k chunks := by
  have hfiles : (chunkFiles chunks).map (fun f => (f.1, Entry.plain f.2)) = chunkEntries chunks :=
    List.ext_getElem (by simp [chunkFiles, chunkEntries]) fun i hi hi' => by simp [chunkFiles, chunkEntries]
  simp [recordDir, objectDir, objectFields, hfiles, Function.comp_def]

section Following

variable {sha256 : Bytes → Checksum} {n : ℕ} {b : Blocks UInt8}

namespace StreamLoop

variable {l : StreamLoop}

/-- The counters and digests are those of the blocks. -/
structure Tallies (sha256 : Bytes → Checksum) (l : StreamLoop) (b : Blocks UInt8) : Prop where
  size : l.size = b.contents.length
  chunkIndex : l.chunkIndex = b.closed.length
  chunkDigests : l.chunkDigests = b.closed.map sha256
  objectDigest : l.objectDigest = b.contents

/-- The current block has a file. -/
structure Opened (sha256 : Bytes → Checksum) (l : StreamLoop) (b : Blocks UInt8) : Prop where
  tallies : l.Tallies sha256 b
  chunkHandle : l.chunkHandle = some (chunkName b.closed.length)
  chunkWritten : l.chunkWritten = b.current.length
  chunkDigest : l.chunkDigest = b.current
  files : l.files = chunkFiles (b.closed ++ [b.current])

structure Between (sha256 : Bytes → Checksum) (l : StreamLoop) (b : Blocks UInt8) : Prop where
  tallies : l.Tallies sha256 b
  empty : b.current = []
  chunkHandle : l.chunkHandle = none
  files : l.files = chunkFiles b.closed

def Follows (sha256 : Bytes → Checksum) (l : StreamLoop) (b : Blocks UInt8) : Prop :=
  l.Between sha256 b ∨ b.current ≠ [] ∧ l.Opened sha256 b

lemma follows_empty (sha256 : Bytes → Checksum) : ({} : StreamLoop).Follows sha256 {} :=
  Or.inl ⟨⟨rfl, rfl, rfl, rfl⟩, rfl, rfl, rfl⟩

lemma Follows.openChunk (h : l.Follows sha256 b) :
    ∃ l', l.openChunk = .ok (chunkName b.closed.length, l') ∧ l'.Opened sha256 b := by
  rcases h with h | ⟨-, h⟩
  · have ht := h.tallies
    have hfiles : l.files.create (chunkName l.chunkIndex) [] = .ok (chunkFiles (b.closed ++ [[]])) := by
      rw [h.files, ht.chunkIndex, create_chunkFiles]
    have hopen : l.openChunk = .ok (chunkName b.closed.length, { l with
        files := chunkFiles (b.closed ++ [[]])
        chunkHandle := some (chunkName b.closed.length)
        chunkWritten := 0
        chunkDigest := [] }) := by
      simp only [StreamLoop.openChunk, h.chunkHandle, hfiles]
      rw [ht.chunkIndex]
    refine ⟨_, hopen, ⟨ht.size, ht.chunkIndex, ht.chunkDigests, ht.objectDigest⟩, rfl, ?_, h.empty.symm, ?_⟩
    · rw [h.empty]
      rfl
    · rw [h.empty]
  · exact ⟨l, by simp only [StreamLoop.openChunk, h.chunkHandle], h⟩

lemma Opened.writePiece (h : l.Opened sha256 b) (piece : Bytes) :
    (l.writePiece (chunkName b.closed.length) piece).Opened sha256 ⟨b.closed, b.current ++ piece⟩ := by
  have ht := h.tallies
  refine ⟨⟨?_, ht.chunkIndex, ht.chunkDigests, ?_⟩, h.chunkHandle, ?_, ?_, ?_⟩
  · simp [StreamLoop.writePiece, ht.size, Blocks.contents, Nat.add_assoc]
  · simp [StreamLoop.writePiece, ht.objectDigest, Blocks.contents]
  · simp [StreamLoop.writePiece, h.chunkWritten]
  · simp [StreamLoop.writePiece, h.chunkDigest]
  · simp only [StreamLoop.writePiece, h.files, append_chunkFiles]

lemma Opened.closeChunk (h : l.Opened sha256 b) :
    (l.closeChunk sha256).Between sha256 ⟨b.closed ++ [b.current], []⟩ := by
  have ht := h.tallies
  refine ⟨⟨?_, ?_, ?_, ?_⟩, rfl, rfl, h.files⟩
  · simp [StreamLoop.closeChunk, ht.size, Blocks.contents]
  · simp [StreamLoop.closeChunk, ht.chunkIndex]
  · simp [StreamLoop.closeChunk, ht.chunkDigests, h.chunkDigest]
  · simp [StreamLoop.closeChunk, ht.objectDigest, Blocks.contents]

/-- A round puts into the current block what fits. -/
lemma Follows.round (h : l.Follows sha256 b) (hb : b.Regular n) {incoming : Bytes} (hi : incoming ≠ []) :
    ∃ l', l.round sha256 n incoming = .ok (l', incoming.drop (n - b.current.length)) ∧
      l'.Follows sha256 (b.push n (incoming.take (n - b.current.length))) := by
  obtain ⟨l₁, hopen, h₁⟩ := h.openChunk
  have hroom : 0 < n - b.current.length := Nat.sub_pos_of_lt hb.current
  have h₂ := h₁.writePiece (incoming.take (n - b.current.length))
  have hpiece : b.current ++ incoming.take (n - b.current.length) ≠ [] := by
    simp [hi, hroom.ne']
  have hround : l.round sha256 n incoming =
      .ok (if (l₁.writePiece (chunkName b.closed.length) (incoming.take (n - b.current.length))).chunkWritten = n then
          (l₁.writePiece (chunkName b.closed.length) (incoming.take (n - b.current.length))).closeChunk sha256
        else l₁.writePiece (chunkName b.closed.length) (incoming.take (n - b.current.length)),
        incoming.drop (n - b.current.length)) := by
    simp only [StreamLoop.round, hopen, h₁.chunkWritten]
  refine ⟨_, hround, ?_⟩
  rw [h₂.chunkWritten, Blocks.push]
  split_ifs with hfull
  · exact Or.inl h₂.closeChunk
  · exact Or.inr ⟨hpiece, h₂⟩

lemma Follows.consume {fuel : ℕ} (h : l.Follows sha256 b) (hb : b.Regular n) (incoming : Bytes) :
    ∃ l', l.consume sha256 n fuel incoming = .ok l' ∧ l'.Follows sha256 (b.absorb n fuel incoming) := by
  induction fuel generalizing l b incoming with
  | zero => exact ⟨l, rfl, h⟩
  | succ fuel ih =>
    rw [StreamLoop.consume, Blocks.absorb]
    split_ifs with hi
    · exact ⟨l, rfl, h⟩
    · obtain ⟨l₁, hround, h₁⟩ := h.round hb (by simpa using hi)
      rw [hround]
      exact ih h₁ (hb.push (List.length_take_le _ _)) _

/-- What is stored when the stream ends. -/
lemma Follows.finish (h : l.Follows sha256 b) : (l.finish sha256).Between sha256 ⟨b.finish, []⟩ := by
  rcases h with h | ⟨hne, h⟩
  · have hfinish : b.finish = b.closed := by simp [Blocks.finish, h.empty]
    have hblocks : (⟨b.closed, []⟩ : Blocks UInt8) = b := by
      rw [← h.empty]
    rw [StreamLoop.finish, h.chunkHandle, hfinish, hblocks]
    exact h
  · have hfinish : b.finish = b.closed ++ [b.current] := by simp [Blocks.finish, hne]
    rw [StreamLoop.finish, h.chunkHandle, hfinish]
    exact h.closeChunk

end StreamLoop

namespace IterableLoop

/-- The loop that has cut these blocks. -/
def ofBlocks (sha256 : Bytes → Checksum) (b : Blocks UInt8) : IterableLoop :=
  { size := b.contents.length
    chunkIndex := b.closed.length
    chunkBuffer := b.current
    chunkDigests := b.closed.map sha256
    objectDigest := b.contents
    chunkDigest := b.current
    files := chunkFiles b.closed }

lemma extend_ofBlocks (b : Blocks UInt8) (piece : Bytes) :
    (ofBlocks sha256 b).extend piece = ofBlocks sha256 ⟨b.closed, b.current ++ piece⟩ := by
  simp [extend, ofBlocks, Blocks.contents, Nat.add_assoc]

lemma writeChunk_ofBlocks (b : Blocks UInt8) :
    (ofBlocks sha256 b).writeChunk sha256 =
      .ok { ofBlocks sha256 ⟨b.closed ++ [b.current], []⟩ with
        chunkBuffer := b.current, chunkDigest := b.current } := by
  simp [writeChunk, ofBlocks, create_chunkFiles, Blocks.contents]

lemma round_ofBlocks (incoming : Bytes) :
    (ofBlocks sha256 b).round sha256 n incoming =
      .ok (ofBlocks sha256 (b.push n (incoming.take (n - b.current.length))),
        incoming.drop (n - b.current.length)) := by
  have hbuffer : ∀ b : Blocks UInt8, (ofBlocks sha256 b).chunkBuffer = b.current := fun _ => rfl
  simp only [round, hbuffer, extend_ofBlocks, writeChunk_ofBlocks, Blocks.push]
  split_ifs <;> rfl

lemma consume_ofBlocks (fuel : ℕ) (incoming : Bytes) :
    (ofBlocks sha256 b).consume sha256 n fuel incoming = .ok (ofBlocks sha256 (b.absorb n fuel incoming)) := by
  induction fuel generalizing b incoming with
  | zero => rfl
  | succ fuel ih =>
    rw [consume, Blocks.absorb]
    split_ifs with hi
    · rfl
    · rw [round_ofBlocks]
      exact ih _

lemma finish_ofBlocks (sha256 : Bytes → Checksum) (b : Blocks UInt8) :
    ∃ l, (ofBlocks sha256 b).finish sha256 = .ok l ∧ l.size = b.contents.length ∧
      l.chunkIndex = b.finish.length ∧ l.chunkDigests = b.finish.map sha256 ∧ l.objectDigest = b.contents ∧
      l.files = chunkFiles b.finish := by
  have hbuffer : (ofBlocks sha256 b).chunkBuffer = b.current := rfl
  rw [finish, hbuffer, Blocks.finish]
  split_ifs with he
  · exact ⟨_, rfl, by simp [ofBlocks]⟩
  · refine ⟨_, writeChunk_ofBlocks b, ?_⟩
    simp [ofBlocks, Blocks.contents]

end IterableLoop

end Following

end Vault.Storage
