import Mathlib.Algebra.Order.Floor.Div
import Vault.Storage.ChunkLoops

/-! A call of `write_stream` and one of `write_bytes` that nothing interrupts, with the loops as they are
written. What such a call adds to the in-flight set, to the reservation and to the staging directory is gone
when it ends. Both store the one directory that the payload and the chunk size determine, and where the
capacity is the only limit they run out of it for the same payloads. -/

namespace Vault.Storage

open Vault.Common Vault.Lib

/-- A piece of the stream, and what `disk_usage` shows when it is reserved. -/
structure Turn where
  piece : Piece
  free : ℕ
  deriving DecidableEq, Repr

def Turn.ofBytes (t : Bytes × ℕ) : Turn := ⟨.bytes t.1, t.2⟩

namespace Chunking

variable (sha256 : Bytes → Checksum) (cfg : EngineConfig)

/-- The outer loop of `write_stream`. -/
def receive (e : Engine) (l : StreamLoop) : List Turn → Except EngineError StreamLoop
  | [] => .ok l
  | ⟨.other, _⟩ :: _ => .error (.type "request stream must yield bytes")
  | ⟨.bytes b, free⟩ :: turns =>
    if b.isEmpty then receive e l turns
    else
      match e.reserveCapacity cfg free b.length with
      | .error x => .error x
      | .ok e =>
        match l.consume sha256 cfg.chunkSizeBytes b.length b with
        | .error x => .error x
        | .ok l => receive e l turns

def writeStream (k : Key) (uuid : String) (turns : List Turn) (e : Engine) : Engine × Except EngineError ℕ :=
  match e.createStagingDir k uuid with
  | .error x => (e, .error x)
  | .ok _ =>
    match receive sha256 cfg e {} turns with
    | .error x => (e, .error x)
    | .ok l =>
      let l := l.finish sha256
      let dir := recordDir cfg.chunkSizeBytes k l.size l.chunkIndex (sha256 l.objectDigest) l.chunkDigests l.files
      if (e.folder? k.path).isSome then (e, .error (Engine.alreadyExists k))
      else
        ({ e.addFolder ⟨k.objectId, k.versionId, dir⟩ with usedBytes := e.usedBytes + l.size }, .ok l.size)

def gather (e : Engine) (l : IterableLoop) : List Turn → Except EngineError IterableLoop
  | [] => .ok l
  | ⟨.other, _⟩ :: _ => .error (.type "data chunks must be bytes")
  | ⟨.bytes b, free⟩ :: turns =>
    if b.isEmpty then gather e l turns
    else
      match e.reserveCapacity cfg free b.length with
      | .error x => .error x
      | .ok e =>
        match l.consume sha256 cfg.chunkSizeBytes b.length b with
        | .error x => .error x
        | .ok l => gather e l turns

def writeIterable (k : Key) (uuid : String) (turns : List Turn) (e : Engine) : Engine × Except EngineError ℕ :=
  match e.createStagingDir k uuid with
  | .error x => (e, .error x)
  | .ok _ =>
    match gather sha256 cfg e {} turns with
    | .error x => (e, .error x)
    | .ok l =>
      match l.finish sha256 with
      | .error x => (e, .error x)
      | .ok l =>
        let dir := recordDir cfg.chunkSizeBytes k l.size l.chunkIndex (sha256 l.objectDigest) l.chunkDigests l.files
        if (e.folder? k.path).isSome then (e, .error (Engine.alreadyExists k))
        else
          ({ e.addFolder ⟨k.objectId, k.versionId, dir⟩ with usedBytes := e.usedBytes + l.size }, .ok l.size)

def writeBytes (k : Key) (uuid : String) (data : Piece) (free : ℕ) (e : Engine) : Engine × Except EngineError ℕ :=
  match data with
  | .other => (e, .error (.type "data must be bytes"))
  | .bytes b => writeIterable sha256 cfg k uuid [⟨.bytes b, free⟩] e

/-- Bytes `i * chunkSizeBytes` to `min ((i + 1) * chunkSizeBytes) d.length`. -/
def chunkAt (chunkSizeBytes : ℕ) (d : Bytes) (i : ℕ) : Bytes :=
  (d.take (min ((i + 1) * chunkSizeBytes) d.length)).drop (i * chunkSizeBytes)

/-- The directory that a payload should be stored in. -/
def canonicalDir (chunkSizeBytes : ℕ) (k : Key) (d : Bytes) : Dir :=
  let count := d.length ⌈/⌉ chunkSizeBytes
  { metadata := .document (.dict
      [("object_id", .str k.objectId), ("version_id", .str k.versionId), ("size_bytes", .int d.length),
        ("chunk_size_bytes", .int chunkSizeBytes), ("chunk_count", .int count),
        ("checksum", .str (toString (sha256 d))),
        ("chunk_checksums", .list ((List.range count).map fun i =>
          .str (toString (sha256 (chunkAt chunkSizeBytes d i)))))])
    entries := (List.range count).map fun i => (chunkName i, Entry.plain (chunkAt chunkSizeBytes d i)) }

/-- The call ended with `StorageFullError`. -/
def OutOfSpace (result : Engine × Except EngineError ℕ) : Prop :=
  ∃ message, result.2 = .error (.storageFull message)

instance (result : Engine × Except EngineError ℕ) : Decidable (OutOfSpace result) :=
  match h : result.2 with
  | .error (.storageFull message) => .isTrue ⟨message, h⟩
  | .error (.value _) | .error (.type _) | .error (.objectNotFound _) | .error (.objectAlreadyExists _)
  | .error (.storage _) | .error .other | .ok _ => .isFalse (by rintro ⟨m, hm⟩; rw [h] at hm; cases hm)

/-- The first reservation that is refused. -/
def refusal (e : Engine) : List (Bytes × ℕ) → Option EngineError
  | [] => none
  | (b, free) :: rest =>
    if b.isEmpty then refusal e rest
    else
      match e.reserveCapacity cfg free b.length with
      | .error x => some x
      | .ok e => refusal e rest

/-- What a call does with pieces that are all bytes, whichever of the two it is. -/
def outcome (k : Key) (uuid : String) (turns : List (Bytes × ℕ)) (e : Engine) : Engine × Except EngineError ℕ :=
  let d := (turns.map Prod.fst).flatten
  match e.createStagingDir k uuid with
  | .error x => (e, .error x)
  | .ok _ =>
    match refusal cfg e turns with
    | some x => (e, .error x)
    | none =>
      if (e.folder? k.path).isSome then (e, .error (Engine.alreadyExists k))
      else
        ({ e.addFolder ⟨k.objectId, k.versionId, canonicalDir sha256 cfg.chunkSizeBytes k d⟩ with
           usedBytes := e.usedBytes + d.length }, .ok d.length)

variable {sha256 cfg} {e : Engine} {b : Blocks UInt8}

lemma receive_spec (turns : List (Bytes × ℕ)) {l : StreamLoop} (h : l.Follows sha256 b)
    (hb : b.Regular cfg.chunkSizeBytes) :
    (∀ x, refusal cfg e turns = some x → receive sha256 cfg e l (turns.map Turn.ofBytes) = .error x) ∧
      (refusal cfg e turns = none → ∃ l', receive sha256 cfg e l (turns.map Turn.ofBytes) = .ok l' ∧
        l'.Follows sha256 (b.feedAll cfg.chunkSizeBytes (turns.map Prod.fst))) := by
  induction turns generalizing e l b with
  | nil => exact ⟨by simp [refusal], fun _ => ⟨l, rfl, h⟩⟩
  | cons t turns ih =>
    obtain ⟨piece, free⟩ := t
    cases piece with
    | nil => exact ih h hb
    | cons a piece =>
      simp only [List.map_cons, Turn.ofBytes, receive, refusal, List.isEmpty_cons, Bool.false_eq_true, if_false]
      cases hr : e.reserveCapacity cfg free (a :: piece).length with
      | error x => exact ⟨fun y hy => congrArg Except.error (Option.some.inj hy), fun hn => by cases hn⟩
      | ok e' =>
        obtain ⟨l', hconsume, h'⟩ : ∃ l', l.consume sha256 cfg.chunkSizeBytes (a :: piece).length (a :: piece) = .ok l' ∧
            l'.Follows sha256 (b.absorb cfg.chunkSizeBytes (a :: piece).length (a :: piece)) := h.consume hb (a :: piece)
        simp only [hconsume]
        exact ih h' (hb.feed (a :: piece))

lemma gather_eq (turns : List (Bytes × ℕ)) :
    gather sha256 cfg e (IterableLoop.ofBlocks sha256 b) (turns.map Turn.ofBytes) =
      match refusal cfg e turns with
      | some x => .error x
      | none => .ok (IterableLoop.ofBlocks sha256 (b.feedAll cfg.chunkSizeBytes (turns.map Prod.fst))) := by
  induction turns generalizing e b with
  | nil => rfl
  | cons t turns ih =>
    obtain ⟨piece, free⟩ := t
    cases piece with
    | nil => exact ih
    | cons a piece =>
      simp only [List.map_cons, Turn.ofBytes, gather, refusal, List.isEmpty_cons, Bool.false_eq_true, if_false]
      cases hr : e.reserveCapacity cfg free (a :: piece).length with
      | error x => rfl
      | ok e' =>
        simp only [IterableLoop.consume_ofBlocks]
        exact ih

lemma chunkAt_eq (n : ℕ) (d : Bytes) (i : ℕ) : chunkAt n d i = (d.drop (i * n)).take n := by
  have hstop : (i + 1) * n - i * n = n := by rw [Nat.add_mul, one_mul, Nat.add_sub_cancel_left]
  rw [chunkAt, ← List.take_take, List.take_length, List.drop_take, hstop]

/-- The blocks into which a payload is cut are its canonical chunks. -/
lemma cut_eq {n : ℕ} (hn : 0 < n) {blocks : List Bytes} (h : Blocks.Cut n blocks) :
    blocks = (List.range (blocks.flatten.length ⌈/⌉ n)).map (chunkAt n blocks.flatten) := by
  obtain ⟨hlength, hslices⟩ := h.getElem?_eq hn
  rw [Nat.ceilDiv_eq_add_pred_div, ← hlength]
  refine List.ext_getElem (by simp) fun i hi hi' => ?_
  rw [List.getElem_map, List.getElem_range, chunkAt_eq]
  exact hslices i _ (List.getElem?_eq_getElem hi)

lemma objectDir_canonical (k : Key) {blocks : List Bytes} (h : Blocks.Cut cfg.chunkSizeBytes blocks) :
    objectDir sha256 cfg k blocks = canonicalDir sha256 cfg.chunkSizeBytes k blocks.flatten := by
  have hblocks := cut_eq cfg.chunkSizeBytes_pos h
  have hcount : blocks.length = blocks.flatten.length ⌈/⌉ cfg.chunkSizeBytes := by
    simpa using congrArg List.length hblocks
  have hentries : chunkEntries blocks = (List.range (blocks.flatten.length ⌈/⌉ cfg.chunkSizeBytes)).map fun i =>
      (chunkName i, Entry.plain (chunkAt cfg.chunkSizeBytes blocks.flatten i)) := by
    conv_lhs => rw [hblocks]
    exact List.ext_getElem (by simp [chunkEntries]) fun i hi hi' => by simp [chunkEntries]
  have hdigests : blocks.map (fun c => Item.str (toString (sha256 c))) =
      (List.range (blocks.flatten.length ⌈/⌉ cfg.chunkSizeBytes)).map fun i =>
        Item.str (toString (sha256 (chunkAt cfg.chunkSizeBytes blocks.flatten i))) := by
    conv_lhs => rw [hblocks, List.map_map]
    rfl
  simp only [objectDir, objectFields, canonicalDir, hentries, hdigests, hcount]

lemma flatten_feedAll (pieces : List Bytes) :
    (({} : Blocks UInt8).feedAll cfg.chunkSizeBytes pieces).finish.flatten = pieces.flatten := by
  rw [Blocks.flatten_finish, (Blocks.feedAll_spec (Blocks.regular_empty cfg.chunkSizeBytes_pos) pieces).2]
  rfl

lemma feedAll_canonical (k : Key) (pieces : List Bytes) :
    objectDir sha256 cfg k (({} : Blocks UInt8).feedAll cfg.chunkSizeBytes pieces).finish =
      canonicalDir sha256 cfg.chunkSizeBytes k pieces.flatten := by
  have hr := (Blocks.feedAll_spec (Blocks.regular_empty cfg.chunkSizeBytes_pos) pieces).1
  rw [objectDir_canonical k hr.cut, flatten_feedAll]

/-- What either loop records of a stream that it has cut. -/
lemma recordDir_feedAll (k : Key) (pieces : List Bytes) {size count : ℕ} {content : Bytes}
    {digests : List Checksum} {files : Files} {chunks : List Bytes}
    (hchunks : chunks = (({} : Blocks UInt8).feedAll cfg.chunkSizeBytes pieces).finish)
    (hsize : size = chunks.flatten.length) (hcount : count = chunks.length) (hcontent : content = chunks.flatten)
    (hdigests : digests = chunks.map sha256) (hfiles : files = chunkFiles chunks) :
    size = pieces.flatten.length ∧
      recordDir cfg.chunkSizeBytes k size count (sha256 content) digests files =
        canonicalDir sha256 cfg.chunkSizeBytes k pieces.flatten := by
  rw [hsize, hcount, hcontent, hdigests, hfiles, recordDir_eq, hchunks, feedAll_canonical, flatten_feedAll]
  exact ⟨rfl, rfl⟩

theorem writeStream_eq_outcome (k : Key) (uuid : String) (turns : List (Bytes × ℕ)) (e : Engine) :
    writeStream sha256 cfg k uuid (turns.map Turn.ofBytes) e = outcome sha256 cfg k uuid turns e := by
  have hb : ({} : Blocks UInt8).Regular cfg.chunkSizeBytes := Blocks.regular_empty cfg.chunkSizeBytes_pos
  unfold writeStream outcome
  cases e.createStagingDir k uuid with
  | error x => rfl
  | ok staging =>
    obtain ⟨hrefused, hreceived⟩ := receive_spec (e := e) turns (StreamLoop.follows_empty sha256) hb
    cases hx : refusal cfg e turns with
    | some x => simp only [hrefused x hx]
    | none =>
      obtain ⟨l, hl, hf⟩ := hreceived hx
      obtain ⟨⟨hsize, hcount, hdigests, hcontent⟩, -, -, hfiles⟩ := hf.finish
      simp only [Blocks.contents, List.append_nil] at hsize hcontent
      obtain ⟨hlength, hdir⟩ := recordDir_feedAll k (turns.map Prod.fst) rfl hsize hcount
        hcontent hdigests hfiles
      simp only [hl, hdir]
      simp only [hlength]

theorem writeIterable_eq_outcome (k : Key) (uuid : String) (turns : List (Bytes × ℕ)) (e : Engine) :
    writeIterable sha256 cfg k uuid (turns.map Turn.ofBytes) e = outcome sha256 cfg k uuid turns e := by
  unfold writeIterable outcome
  cases e.createStagingDir k uuid with
  | error x => rfl
  | ok staging =>
    have hgather : gather sha256 cfg e (IterableLoop.ofBlocks sha256 {}) (turns.map Turn.ofBytes) = _ :=
      gather_eq turns
    have hempty : IterableLoop.ofBlocks sha256 {} = {} := rfl
    rw [hempty] at hgather
    cases hx : refusal cfg e turns with
    | some x => simp only [hgather, hx]
    | none =>
      simp only [hgather, hx]
      obtain ⟨l, hl, hsize, hcount, hdigests, hcontent, hfiles⟩ := IterableLoop.finish_ofBlocks sha256
        (({} : Blocks UInt8).feedAll cfg.chunkSizeBytes (turns.map Prod.fst))
      rw [← Blocks.flatten_finish] at hsize hcontent
      obtain ⟨hlength, hdir⟩ := recordDir_feedAll k (turns.map Prod.fst) rfl hsize hcount
        hcontent hdigests hfiles
      simp only [hl, hdir]
      simp only [hlength]

lemma writeBytes_eq_outcome (k : Key) (uuid : String) (d : Bytes) (free : ℕ) (e : Engine) :
    writeBytes sha256 cfg k uuid (.bytes d) free e = outcome sha256 cfg k uuid [(d, free)] e :=
  writeIterable_eq_outcome k uuid [(d, free)] e

lemma outcome_ok {k : Key} {uuid : String} {turns : List (Bytes × ℕ)} {e' : Engine} {size : ℕ}
    (h : outcome sha256 cfg k uuid turns e = (e', .ok size)) :
    k.Valid ∧ e'.folder? k.path =
      some ⟨k.objectId, k.versionId, canonicalDir sha256 cfg.chunkSizeBytes k (turns.map Prod.fst).flatten⟩ := by
  unfold outcome at h
  cases hs : e.createStagingDir k uuid with
  | error x => simp [hs] at h
  | ok staging =>
    cases hx : refusal cfg e turns with
    | some x => simp [hs, hx] at h
    | none =>
      simp only [hs, hx] at h
      split_ifs at h with hf
      · cases h
      · cases h
        let f : Folder := ⟨k.objectId, k.versionId, canonicalDir sha256 cfg.chunkSizeBytes k (turns.map Prod.fst).flatten⟩
        have hfree : Table.lookup Folder.path f.path e.disk = none := Option.not_isSome_iff_eq_none.mp hf
        exact ⟨(Engine.createStagingDir_ok hs).2.valid, Table.lookup_concat_self hfree⟩

lemma refusal_storageFull {turns : List (Bytes × ℕ)} {x : EngineError} (h : refusal cfg e turns = some x) :
    ∃ message, x = .storageFull message := by
  induction turns generalizing e with
  | nil => cases h
  | cons t turns ih =>
    obtain ⟨piece, free⟩ := t
    unfold refusal Engine.reserveCapacity at h
    split_ifs at h with hempty hfull
    · exact ih h
    · exact ⟨_, (Option.some.inj h).symm⟩
    · exact ih h

/-- Where the capacity is the only limit, it is the whole payload that must fit. -/
lemma refusal_iff {turns : List (Bytes × ℕ)} (h : ∀ t ∈ turns, cfg.capacityBytes ≤ t.2) :
    refusal cfg e turns ≠ none ↔
      cfg.capacityBytes - e.usedBytes - e.reservedBytes < (turns.map Prod.fst).flatten.length := by
  induction turns generalizing e with
  | nil => simp [refusal]
  | cons t turns ih =>
    obtain ⟨piece, free⟩ := t
    have hfree : cfg.capacityBytes ≤ free := h (piece, free) List.mem_cons_self
    have hrest : ∀ t ∈ turns, cfg.capacityBytes ≤ t.2 := fun t ht => h t (List.mem_cons_of_mem _ ht)
    cases piece with
    | nil => exact ih hrest
    | cons a piece =>
      have hroom : e.freeBytes cfg free = cfg.capacityBytes - e.usedBytes - e.reservedBytes :=
        min_eq_left (by omega)
      simp only [refusal, Engine.reserveCapacity, hroom, List.isEmpty_cons, Bool.false_eq_true, if_false,
        List.map_cons, List.flatten_cons, List.length_append]
      split_ifs with hfull
      · simp only [ne_eq, reduceCtorEq, not_false_eq_true, true_iff]
        omega
      · refine (ih hrest).trans ?_
        dsimp only
        omega

lemma createStagingDir_eq {k : Key} {uuid : String}
    (hu : e.folder? (k.objectId, stagingName k.versionId uuid) = none) :
    e.createStagingDir k uuid =
      (validateIds k >>= fun _ => e.ensureNewObject k).map fun _ => stagingName k.versionId uuid := by
  simp only [Engine.createStagingDir, hu, Option.isSome_none, Bool.false_eq_true, if_false]
  cases validateIds k with
  | error x => rfl
  | ok _ => cases e.ensureNewObject k <;> rfl

lemma not_storageFull {k : Key} {x : EngineError}
    (h : (validateIds k >>= fun _ => e.ensureNewObject k) = .error x) (message : String) :
    x ≠ .storageFull message := by
  rintro rfl
  unfold validateIds Engine.ensureNewObject at h
  split_ifs at h <;> cases h

lemma outOfSpace_outcome_iff {k : Key} {uuid : String} {turns : List (Bytes × ℕ)}
    (hu : e.folder? (k.objectId, stagingName k.versionId uuid) = none)
    (h : ∀ t ∈ turns, cfg.capacityBytes ≤ t.2) :
    OutOfSpace (outcome sha256 cfg k uuid turns e) ↔ (validateIds k >>= fun _ => e.ensureNewObject k) = .ok () ∧
      cfg.capacityBytes - e.usedBytes - e.reservedBytes < (turns.map Prod.fst).flatten.length := by
  rw [← refusal_iff h]
  unfold OutOfSpace outcome
  rw [createStagingDir_eq hu]
  cases hc : validateIds k >>= fun _ => e.ensureNewObject k with
  | error x =>
    refine iff_of_false ?_ fun hn => by cases hn.1
    rintro ⟨message, hm⟩
    exact not_storageFull hc message (Except.error.inj hm)
  | ok _ =>
    cases hx : refusal cfg e turns with
    | some x =>
      obtain ⟨message, rfl⟩ := refusal_storageFull hx
      simp [Except.map]
    | none =>
      simp only [Except.map, ne_eq, not_true_eq_false, and_false, iff_false]
      split_ifs <;> simp [Engine.alreadyExists]

end Chunking

end Vault.Storage
