import Vault.Storage.Engine

/-! What one step of the engine can do: one constructor for each way in which a step ends, with the
checks that were passed before it. -/

namespace Vault.Storage

open Vault.Common Vault.Lib

/-- The `write_stream` call of which the action is a step. -/
def Action.writerId : Action → Option ℕ
  | .start id .. | .accept id .. | .interrupt id _ | .publish id | .account id | .cleanup id | .release id =>
    some id
  | .writeBytes .. | .delete _ => none

namespace Engine

/-- The checks that come before the staging directory passed. -/
structure Admits (e : Engine) (k : Key) (staging : String) : Prop where
  valid : k.Valid
  free : k ∉ e.inflight
  new : ¬e.Exists k
  unused : e.folder? (k.objectId, staging) = none

inductive Change (sha256 : Bytes → Checksum) (cfg : EngineConfig) (e : Engine) :
    Action → Engine → Reply → Prop
  | idle {a : Action} : Change sha256 cfg e a e .idle
  | raised {a : Action} (x : EngineError) : Change sha256 cfg e a e (.raised x)
  | started (id : ℕ) (k : Key) (uuid : String) (hid : e.writer? id = none)
      (ha : e.Admits k (stagingName k.versionId uuid)) :
      Change sha256 cfg e (.start id k uuid)
        { e with
          disk := e.disk ++ [⟨k.objectId, stagingName k.versionId uuid, {}⟩]
          inflight := k :: e.inflight
          writers := e.writers ++ [{ id := id, key := k, staging := stagingName k.versionId uuid }] } .idle
  | stored {a : Action} (w : Writer) (b : Bytes) (hw : e.writer? w.id = some w) (hp : w.phase = .receiving)
      (hb : e.usedBytes + e.reservedBytes + b.length ≤ cfg.capacityBytes) (hown : a.writerId = some w.id) :
      Change sha256 cfg e a
        (Engine.storePiece cfg w b { e with reservedBytes := e.reservedBytes + b.length }) .idle
  | failing {a : Action} (w : Writer) (x : EngineError) (hw : e.writer? w.id = some w) (hp : w.phase = .receiving)
      (hown : a.writerId = some w.id) : Change sha256 cfg e a (e.amendWriter w.id (Writer.enter (.failing x))) .idle
  | published {a : Action} (w : Writer) (hw : e.writer? w.id = some w) (hp : w.phase = .receiving)
      (hfree : e.folder? w.key.path = none) (hown : a.writerId = some w.id) :
      Change sha256 cfg e a
        (((e.removeTree w.stagingPath).addFolder
          ⟨w.key.objectId, w.key.versionId, objectDir sha256 cfg w.key w.blocks.finish⟩).amendWriter w.id
            (Writer.enter .published)) (.published w.key w.blocks.contents)
  | cleaned {a : Action} (w : Writer) (x : EngineError) (hw : e.writer? w.id = some w)
      (hp : w.phase = .receiving ∨ w.phase = .failing x) (hown : a.writerId = some w.id) :
      Change sha256 cfg e a ((e.removeTree w.stagingPath).amendWriter w.id (Writer.enter (.cleaned x))) .idle
  | accounted {a : Action} (w : Writer) (hw : e.writer? w.id = some w) (hp : w.phase = .published)
      (hown : a.writerId = some w.id) :
      Change sha256 cfg e a (e.accountObject w) (.returned w.blocks.contents.length)
  | released (w : Writer) (x : EngineError) (hw : e.writer? w.id = some w) (hp : w.phase = .cleaned x) :
      Change sha256 cfg e (.release w.id) (e.releaseWrite w) (.raised x)
  | wrote {a : Action} (k : Key) (b : Bytes) (staging : String) (ha : e.Admits k staging)
      (hfree : e.folder? k.path = none)
      (hb : b ≠ [] → e.usedBytes + e.reservedBytes + b.length ≤ cfg.capacityBytes)
      (hown : a.writerId = none) :
      Change sha256 cfg e a
        { e.addFolder ⟨k.objectId, k.versionId, objectDir sha256 cfg k
            (({} : Blocks UInt8).feed cfg.chunkSizeBytes b).finish⟩ with
          usedBytes := e.usedBytes + b.length } (.wrote k b)
  | deleted (k : Key) (f : Folder) (hk : k.Valid) (hf : e.folder? k.path = some f)
      (hm : f.dir.metadata.isFile = true) :
      Change sha256 cfg e (.delete k) { e.removeTree k.path with usedBytes := e.usedBytes - payloadBytes f.dir }
        (.deleted k)

variable {sha256 : Bytes → Checksum} {cfg : EngineConfig} {e : Engine} {a : Action}

lemma createStagingDir_ok {k : Key} {uuid staging : String} (h : e.createStagingDir k uuid = .ok staging) :
    staging = stagingName k.versionId uuid ∧ e.Admits k staging := by
  unfold createStagingDir at h
  cases hv : validateIds k with
  | error x =>
    rw [hv] at h
    cases h
  | ok _ =>
    cases hn : e.ensureNewObject k with
    | error x =>
      rw [hv, hn] at h
      cases h
    | ok _ =>
      rw [hv, hn] at h
      simp only [bind, Except.bind] at h
      split_ifs at h with hs
      cases h
      unfold ensureNewObject at hn
      split_ifs at hn with hc
      rw [not_or] at hc
      exact ⟨rfl, validateIds_ok.mp hv, hc.1, hc.2, by simpa using hs⟩

lemma fits_of_not_lt {b : Bytes} {free : ℕ} (h : ¬e.freeBytes cfg free < b.length) (hb : b ≠ []) :
    e.usedBytes + e.reservedBytes + b.length ≤ cfg.capacityBytes := by
  have hn := List.length_pos_iff.mpr hb
  unfold freeBytes at h
  omega

lemma change_start (id : ℕ) (k : Key) (uuid : String) :
    Change sha256 cfg e (.start id k uuid) (e.start id k uuid).1 (e.start id k uuid).2 := by
  unfold start
  cases hid : e.writer? id with
  | some w => exact .idle
  | none =>
    cases hs : e.createStagingDir k uuid with
    | error x => exact .raised x
    | ok staging =>
      obtain ⟨rfl, ha⟩ := createStagingDir_ok hs
      exact .started id k uuid hid ha

lemma writer?_id {id : ℕ} {w : Writer} (h : e.writer? id = some w) : w.id = id := Table.lookup_key h

lemma change_acceptPiece {w : Writer} (hw : e.writer? w.id = some w) (hp : w.phase = .receiving)
    (hown : a.writerId = some w.id) (free : ℕ) (piece : Piece) :
    Change sha256 cfg e a (e.acceptPiece cfg w free piece) .idle := by
  match piece with
  | .other => exact .failing w _ hw hp hown
  | .bytes [] => exact .idle
  | .bytes (a :: b) =>
    by_cases hlt : e.freeBytes cfg free < (a :: b).length
    · simp only [acceptPiece, reserveCapacity, if_pos hlt]
      exact .failing w _ hw hp hown
    · simp only [acceptPiece, reserveCapacity, if_neg hlt]
      exact .stored w (a :: b) hw hp (fits_of_not_lt hlt (by simp)) hown

lemma change_publishStaging {w : Writer} (hw : e.writer? w.id = some w) (hp : w.phase = .receiving)
    (hown : a.writerId = some w.id) :
    Change sha256 cfg e a (e.publishStaging sha256 cfg w).1 (e.publishStaging sha256 cfg w).2 := by
  unfold publishStaging
  split_ifs with hf
  · exact .cleaned w _ hw (Or.inl hp) hown
  · exact .published w hw hp (by simpa using hf) hown

lemma change_writeBytes (k : Key) (uuid : String) (free : ℕ) (data : Piece) (hown : a.writerId = none) :
    Change sha256 cfg e a (e.writeBytes sha256 cfg k uuid free data).1
      (e.writeBytes sha256 cfg k uuid free data).2 := by
  cases data with
  | other => exact .raised _
  | bytes b =>
    unfold writeBytes
    cases hs : e.createStagingDir k uuid with
    | error x => exact .raised x
    | ok staging =>
      dsimp only
      split_ifs with hlt hf
      · exact .raised _
      · exact .raised _
      · exact .wrote k b staging (createStagingDir_ok hs).2 (by simpa using hf) (fits_of_not_lt hlt) hown

lemma change_delete (k : Key) : Change sha256 cfg e (.delete k) (e.delete k).1 (e.delete k).2 := by
  unfold delete
  cases hv : validateIds k with
  | error x => exact .raised x
  | ok _ =>
    cases hf : e.folder? k.path with
    | none => exact .raised _
    | some f =>
      dsimp only
      split_ifs with hm
      · exact .deleted k f (validateIds_ok.mp hv) hf hm
      · exact .raised _

lemma change_advance {id : ℕ} {f : Writer → Engine × Reply}
    (h : ∀ w, e.writer? id = some w → Change sha256 cfg e a (f w).1 (f w).2) :
    Change sha256 cfg e a (e.advance id f).1 (e.advance id f).2 := by
  unfold advance
  cases hw : e.writer? id with
  | none => exact .idle
  | some w => exact h w hw

theorem perform_change (e : Engine) (a : Action) :
    Change sha256 cfg e a (e.perform sha256 cfg a).1 (e.perform sha256 cfg a).2 := by
  cases a with
  | start id k uuid => exact change_start id k uuid
  | accept id piece free =>
    refine change_advance fun w hw => ?_
    obtain rfl := writer?_id hw
    cases hp : w.phase with
    | receiving => exact change_acceptPiece hw hp rfl free piece
    | _ => exact .idle
  | interrupt id x =>
    refine change_advance fun w hw => ?_
    obtain rfl := writer?_id hw
    cases hp : w.phase with
    | receiving => exact .failing w x hw hp rfl
    | _ => exact .idle
  | publish id =>
    refine change_advance fun w hw => ?_
    obtain rfl := writer?_id hw
    cases hp : w.phase with
    | receiving => exact change_publishStaging hw hp rfl
    | _ => exact .idle
  | account id =>
    refine change_advance fun w hw => ?_
    obtain rfl := writer?_id hw
    cases hp : w.phase with
    | published => exact .accounted w hw hp rfl
    | _ => exact .idle
  | cleanup id =>
    refine change_advance fun w hw => ?_
    obtain rfl := writer?_id hw
    cases hp : w.phase with
    | failing x => exact .cleaned w x hw (Or.inr hp) rfl
    | _ => exact .idle
  | release id =>
    refine change_advance fun w hw => ?_
    obtain rfl := writer?_id hw
    cases hp : w.phase with
    | cleaned x => exact .released w x hw hp
    | _ => exact .idle
  | writeBytes k data uuid free => exact change_writeBytes k uuid free data rfl
  | delete k => exact change_delete k

end Engine

end Vault.Storage
