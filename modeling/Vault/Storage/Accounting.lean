import Vault.Storage.EngineShelves

/-! The cached usage. Between its publication and its accounting an object is on disk but not yet in
`_used_bytes`; a delete in between that releases more than is accounted is cut off at zero, and the later
accounting then counts bytes that are gone. Without such a delete the books are exact. -/

namespace Vault.Storage

open Vault.Common Vault.Lib

def Folder.publishedBytes (f : Folder) : ℕ := if f.dir.metadata.isFile then payloadBytes f.dir else 0

def Writer.pendingBytes (w : Writer) : ℕ := if w.phase = .published then w.blocks.contents.length else 0

lemma payloadBytes_objectDir (sha256 : Bytes → Checksum) (cfg : EngineConfig) (k : Key) (chunks : List Bytes) :
    payloadBytes (objectDir sha256 cfg k chunks) = chunks.flatten.length := by
  have hall : (chunkEntries chunks).filter (fun p => p.1.HasChunkPrefix) = chunkEntries chunks := by
    refine List.filter_eq_self.mpr fun p hp => ?_
    obtain ⟨i, hi, rfl⟩ := List.mem_mapIdx.mp hp
    simpa using hasChunkPrefix_chunkName i
  have hsizes : (chunkEntries chunks).map (fun p => p.2.sizeBytes) = chunks.map List.length := by
    refine List.ext_getElem (by simp [chunkEntries]) fun i hi hi' => ?_
    simp [chunkEntries, Entry.plain, Entry.sizeBytes]
  rw [payloadBytes, objectDir, hall, hsizes, List.length_flatten]

namespace Engine

def publishedBytes (e : Engine) : ℕ := (e.disk.map Folder.publishedBytes).sum

def pendingBytes (e : Engine) : ℕ := (e.writers.map Writer.pendingBytes).sum

/-- The step deletes no more bytes than are accounted. -/
def Covered (e : Engine) : Action → Prop
  | .delete k => ∀ f ∈ e.folder? k.path, payloadBytes f.dir ≤ e.usedBytes
  | _ => True

instance (e : Engine) : (a : Action) → Decidable (e.Covered a)
  | .delete k => inferInstanceAs (Decidable (∀ f ∈ e.folder? k.path, _))
  | .start .. | .accept .. | .interrupt .. | .publish .. | .account .. | .cleanup .. | .release ..
  | .writeBytes .. => inferInstanceAs (Decidable True)

variable {sha256 : Bytes → Checksum} {cfg : EngineConfig} {e e' : Engine} {w : Writer}

lemma publishedBytes_remove (h : (e.disk.map Folder.path).Nodup) {f : Folder} (hf : f ∈ e.disk) :
    e.publishedBytes =
      f.publishedBytes + ((Table.remove Folder.path f.path e.disk).map Folder.publishedBytes).sum := by
  rw [publishedBytes, ((Table.perm_cons_remove h hf).map Folder.publishedBytes).sum_eq]
  rfl

lemma pendingBytes_remove (h : (e.writers.map Writer.id).Nodup) (hm : w ∈ e.writers) :
    e.pendingBytes =
      w.pendingBytes + ((Table.remove Writer.id w.id e.writers).map Writer.pendingBytes).sum := by
  rw [pendingBytes, ((Table.perm_cons_remove h hm).map Writer.pendingBytes).sum_eq]
  rfl

lemma pendingBytes_amend (h : (e.writers.map Writer.id).Nodup) (hm : w ∈ e.writers) (f : Writer → Writer) :
    ((Table.amend Writer.id w.id f e.writers).map Writer.pendingBytes).sum + w.pendingBytes =
      e.pendingBytes + (f w).pendingBytes := by
  rw [((Table.amend_perm h hm f).map Writer.pendingBytes).sum_eq, pendingBytes_remove h hm]
  simp only [List.map_cons, List.sum_cons]
  omega

/-- An object on disk is accounted, or its write will account it. -/
def Balanced (e : Engine) : Prop := e.usedBytes + e.pendingBytes = e.publishedBytes

lemma publishedBytes_of_absent {f : Folder} (h : f.dir.metadata = .absent) : f.publishedBytes = 0 := by
  simp [Folder.publishedBytes, h, MetadataFile.isFile]

lemma publishedBytes_objectDir (o n : String) (k : Key) (b : Blocks UInt8) :
    Folder.publishedBytes ⟨o, n, objectDir sha256 cfg k b.finish⟩ = b.contents.length := by
  rw [← Blocks.flatten_finish, ← payloadBytes_objectDir sha256 cfg k]
  rfl

/-- Without its staging directory, which counts for nothing, the disk holds the same objects. -/
lemma Shelved.publishedBytes_unstage (h : e.Shelved sha256 cfg) (hm : w ∈ e.writers) (hs : w.Staged) :
    ((Table.remove Folder.path w.stagingPath e.disk).map Folder.publishedBytes).sum = e.publishedBytes := by
  obtain ⟨f, hf, hp, hmeta⟩ := h.staged w hm hs
  rw [← hp, publishedBytes_remove h.paths hf, publishedBytes_of_absent hmeta, Nat.zero_add]

lemma Shelved.publishedBytes_proceed (h : e.Shelved sha256 cfg) (hm : w ∈ e.writers) (hs : w.Staged)
    (b : Blocks UInt8) :
    ((Table.amend Folder.path w.stagingPath (fun f => { f with dir := stagingDir b }) e.disk).map
      Folder.publishedBytes).sum = e.publishedBytes := by
  obtain ⟨f, hf, hp, hmeta⟩ := h.staged w hm hs
  rw [← hp, ((Table.amend_perm h.paths hf _).map Folder.publishedBytes).sum_eq, publishedBytes_remove h.paths hf,
    publishedBytes_of_absent hmeta]
  rfl

lemma pendingBytes_enter (h : e.Ledger cfg) (hm : w ∈ e.writers) (hp : w.phase ≠ .published) (phase : Phase) :
    ((Table.amend Writer.id w.id (Writer.enter phase) e.writers).map Writer.pendingBytes).sum =
      e.pendingBytes + (w.enter phase).pendingBytes := by
  have hamend := pendingBytes_amend h.ids hm (Writer.enter phase)
  rwa [show w.pendingBytes = 0 from if_neg hp, Nat.add_zero] at hamend

lemma Change.balanced {a : Action} {r : Reply} (hc : Change sha256 cfg e a e' r) (hl : e.Ledger cfg)
    (hs : e.Shelved sha256 cfg) (ha : e.Covered a) (h : e.Balanced) : e'.Balanced := by
  unfold Balanced at h ⊢
  cases hc with
  | idle => exact h
  | raised x => exact h
  | started id k uuid hid ha =>
    simpa [pendingBytes, Engine.publishedBytes, Writer.pendingBytes, Folder.publishedBytes,
      MetadataFile.isFile] using h
  | stored w b hw hp hb hown =>
    have hm := writer?_mem hw
    have hpublished := hs.publishedBytes_proceed hm (Or.inl hp) (w.blocks.feed cfg.chunkSizeBytes b)
    have hpending := pendingBytes_amend hl.ids hm (fun w' => { w' with
      reservedBytes := w'.reservedBytes + b.length, blocks := w.blocks.feed cfg.chunkSizeBytes b })
    simp only [Writer.pendingBytes, hp, reduceCtorEq, if_false, Nat.add_zero] at hpending
    change e.usedBytes + ((Table.amend Writer.id w.id _ e.writers).map Writer.pendingBytes).sum =
      ((Table.amend Folder.path _ _ _).map Folder.publishedBytes).sum
    rw [hpublished, ← h]
    exact congrArg (e.usedBytes + ·) hpending
  | failing w x hw hp hown =>
    have hpending := pendingBytes_enter hl (writer?_mem hw) (by simp [hp]) (.failing x)
    change e.usedBytes + ((Table.amend Writer.id w.id _ e.writers).map Writer.pendingBytes).sum = _
    rw [hpending]
    exact h
  | published w hw hp hfree hown =>
    have hm := writer?_mem hw
    have hpending := pendingBytes_enter hl hm (by simp [hp]) .published
    have hpublished := hs.publishedBytes_unstage hm (Or.inl hp)
    change e.usedBytes + ((Table.amend Writer.id w.id _ e.writers).map Writer.pendingBytes).sum =
      ((Table.remove Folder.path w.stagingPath e.disk ++ [_]).map Folder.publishedBytes).sum
    rw [hpending, List.map_append, List.sum_append, hpublished, List.map_singleton, List.sum_singleton,
      publishedBytes_objectDir, ← h, ← Nat.add_assoc]
    rfl
  | cleaned w x hw hp hown =>
    have hm := writer?_mem hw
    have hst : w.Staged := hp.imp_right fun hp => ⟨x, hp⟩
    have hne : w.phase ≠ .published := by
      rcases hp with hp | hp <;> simp [hp]
    have hpending := pendingBytes_enter hl hm hne (.cleaned x)
    change e.usedBytes + ((Table.amend Writer.id w.id _ e.writers).map Writer.pendingBytes).sum =
      ((Table.remove Folder.path w.stagingPath e.disk).map Folder.publishedBytes).sum
    rw [hpending, hs.publishedBytes_unstage hm hst]
    exact h
  | accounted w hw hp hown =>
    have hm := writer?_mem hw
    have hpending := pendingBytes_remove hl.ids hm
    rw [show w.pendingBytes = w.blocks.contents.length from if_pos hp] at hpending
    change e.usedBytes + w.blocks.contents.length +
      ((Table.remove Writer.id w.id e.writers).map Writer.pendingBytes).sum = e.publishedBytes
    omega
  | released w x hw hp =>
    have hm := writer?_mem hw
    have hpending := pendingBytes_remove hl.ids hm
    rw [show w.pendingBytes = 0 from if_neg (by simp [hp]), Nat.zero_add] at hpending
    change e.usedBytes + ((Table.remove Writer.id w.id e.writers).map Writer.pendingBytes).sum = e.publishedBytes
    rw [← hpending]
    exact h
  | wrote k b staging ha hfree hb hown =>
    have hreg := Blocks.contents_feed (Blocks.regular_empty cfg.chunkSizeBytes_pos) b
    change e.usedBytes + b.length + e.pendingBytes = ((e.disk ++ [_]).map Folder.publishedBytes).sum
    rw [List.map_append, List.sum_append, List.map_singleton, List.sum_singleton, publishedBytes_objectDir,
      hreg]
    change _ = e.publishedBytes + b.length
    omega
  | deleted k f hk hf hm =>
    have hpath : f.path = k.path := Table.lookup_key hf
    have hpublished := publishedBytes_remove hs.paths (folder?_mem hf)
    have hcovered := ha f hf
    rw [show f.publishedBytes = payloadBytes f.dir from if_pos hm, hpath] at hpublished
    change e.usedBytes - payloadBytes f.dir + e.pendingBytes =
      ((Table.remove Folder.path k.path e.disk).map Folder.publishedBytes).sum
    omega

/-- What holds in every state of every run. -/
structure Sound (sha256 : Bytes → Checksum) (cfg : EngineConfig) (e : Engine) : Prop where
  ledger : e.Ledger cfg
  shelved : e.Shelved sha256 cfg
  capacity : e.usedBytes + e.reservedBytes ≤ cfg.capacityBytes

lemma sound_empty (sha256 : Bytes → Checksum) (cfg : EngineConfig) : ({} : Engine).Sound sha256 cfg :=
  ⟨ledger_empty cfg, arranged_empty _, Nat.zero_le _⟩

lemma Sound.step (h : e.Sound sha256 cfg) (a : Action) : (e.step sha256 cfg a).Sound sha256 cfg := by
  have hc : Change sha256 cfg e a (e.step sha256 cfg a) _ := perform_change e a
  exact ⟨hc.ledger h.ledger, hc.shelved h.ledger h.shelved, hc.capacity h.ledger h.capacity⟩

abbrev run (sha256 : Bytes → Checksum) (cfg : EngineConfig) (e : Engine) (actions : List Action) : Engine :=
  Runs.run (step sha256 cfg) e actions

lemma sound_run (sha256 : Bytes → Checksum) (cfg : EngineConfig) (actions : List Action) :
    (run sha256 cfg {} actions).Sound sha256 cfg :=
  Runs.run_invariant (fun _ a h => h.step a) (sound_empty sha256 cfg) actions

lemma balanced_run {actions : List Action} (h : Runs.Along (step sha256 cfg) Covered {} actions) :
    (run sha256 cfg {} actions).Balanced := by
  have hrun := Runs.run_along (I := fun e : Engine => e.Sound sha256 cfg ∧ e.Balanced)
    (fun e a ha he => ⟨he.1.step a, (perform_change e a).balanced he.1.ledger he.1.shelved ha he.2⟩)
    ⟨sound_empty sha256 cfg, rfl⟩ h
  exact hrun.2

lemma Ledger.reserved_of_idle (h : e.Ledger cfg) (hw : e.writers = []) : e.reservedBytes = 0 := by
  rw [h.reserved, hw]
  rfl

theorem usage_exact_in_covered_runs (sha256 : Bytes → Checksum) (cfg : EngineConfig) (actions : List Action)
    (h : Runs.Along (step sha256 cfg) Covered {} actions) :
    (run sha256 cfg {} actions).usedBytes + (run sha256 cfg {} actions).reservedBytes ≤ cfg.capacityBytes ∧
      ((run sha256 cfg {} actions).writers = [] →
        (run sha256 cfg {} actions).reservedBytes = 0 ∧
          (run sha256 cfg {} actions).usedBytes = (run sha256 cfg {} actions).publishedBytes) := by
  have hsound := sound_run sha256 cfg actions
  refine ⟨hsound.capacity, fun hw => ⟨hsound.ledger.reserved_of_idle hw, ?_⟩⟩
  have hbalanced := balanced_run h
  rwa [Balanced, pendingBytes, hw, List.map_nil, List.sum_nil, Nat.add_zero] at hbalanced

end Engine

def smallEngine : EngineConfig := ⟨10, 2, by decide, by decide⟩

def upload (bytes : Bytes) : List Action :=
  [.start 0 reportKey "1", .accept 0 (.bytes bytes) 100, .publish 0]

namespace Engine

theorem usage_exact_after_upload_and_delete :
    (run plainHash smallEngine {} (upload [1, 2, 3] ++ [.account 0, .delete reportKey])).usedBytes = 0 := by
  have h := usage_exact_in_covered_runs plainHash smallEngine
    (upload [1, 2, 3] ++ [.account 0, .delete reportKey]) (by decide +kernel)
  refine (h.2 (by decide +kernel)).2.trans ?_
  decide +kernel

/-- The delete falls between the publication and the accounting of the only object. -/
theorem deleted_bytes_accounted :
    (run plainHash smallEngine {} (upload [1, 2, 3] ++ [.delete reportKey, .account 0])).writers = [] ∧
      (run plainHash smallEngine {} (upload [1, 2, 3] ++ [.delete reportKey, .account 0])).disk = [] ∧
      (run plainHash smallEngine {} (upload [1, 2, 3] ++ [.delete reportKey, .account 0])).usedBytes = 3 := by
  decide +kernel

end Engine

end Vault.Storage
