import Vault.Storage.EngineLedger

/-! What is on disk while the engine runs: the staging directory of each write that has not published, and
the published objects, each as its write left it. No two of them have the same path. -/

namespace Vault.Storage

open Vault.Common Vault.Lib

/-- The staging directory of the write is on disk. -/
def Writer.Staged (w : Writer) : Prop := w.phase = .receiving ∨ ∃ x, w.phase = .failing x

def Folder.Published (sha256 : Bytes → Checksum) (cfg : EngineConfig) (f : Folder) : Prop :=
  ∃ (k : Key) (chunks : List Bytes), k.Valid ∧ f.path = k.path ∧ f.dir = objectDir sha256 cfg k chunks ∧
    Blocks.Cut cfg.chunkSizeBytes chunks

lemma Writer.staged_enter_failing (w : Writer) (x : EngineError) : (w.enter (.failing x)).Staged :=
  Or.inr ⟨x, rfl⟩

lemma Writer.not_staged_enter_cleaned (w : Writer) (x : EngineError) : ¬(w.enter (.cleaned x)).Staged := by
  simp [Writer.Staged, Writer.enter]

lemma Writer.not_staged_enter_published (w : Writer) : ¬(w.enter .published).Staged := by
  simp [Writer.Staged, Writer.enter]

namespace Engine

/-- Every directory is the staging directory of a write or one of the others, which all meet the condition. -/
structure Arranged (P : Folder → Prop) (e : Engine) : Prop where
  paths : (e.disk.map Folder.path).Nodup
  names : ∀ w ∈ e.writers, w.key.Valid ∧ ∃ uuid, w.staging = stagingName w.key.versionId uuid
  staged : ∀ w ∈ e.writers, w.Staged → ∃ f ∈ e.disk, f.path = w.stagingPath ∧ f.dir.metadata = .absent
  apart : ∀ w ∈ e.writers, ∀ w' ∈ e.writers, w.Staged → w'.Staged → w.stagingPath = w'.stagingPath →
    w.id = w'.id
  folders : ∀ f ∈ e.disk, (∃ w ∈ e.writers, w.Staged ∧ w.stagingPath = f.path) ∨ P f

abbrev Shelved (sha256 : Bytes → Checksum) (cfg : EngineConfig) (e : Engine) : Prop :=
  e.Arranged (Folder.Published sha256 cfg)

variable {sha256 : Bytes → Checksum} {cfg : EngineConfig} {P : Folder → Prop} {e e' : Engine} {w : Writer}

lemma folder?_mem {path : String × String} {f : Folder} (h : e.folder? path = some f) : f ∈ e.disk :=
  Table.lookup_mem h

/-- Staging directories hold no metadata between two steps, so none of them is an object. -/
lemma Arranged.path_ne (h : e.Arranged P) (hm : w ∈ e.writers) (hs : w.Staged) {f : Folder}
    (hf : f ∈ e.disk) (hmeta : f.dir.metadata.isFile = true) : f.path ≠ w.stagingPath := by
  intro he
  obtain ⟨g, hg, hp, habsent⟩ := h.staged w hm hs
  obtain rfl := Table.eq_of_key h.paths hf hg (he.trans hp.symm)
  rw [habsent] at hmeta
  cases hmeta

lemma Arranged.start (h : e.Arranged P) {id : ℕ} {k : Key} {uuid : String}
    (ha : e.Admits k (stagingName k.versionId uuid))
    (hd : e'.disk = e.disk ++ [⟨k.objectId, stagingName k.versionId uuid, {}⟩])
    (hw : e'.writers = e.writers ++ [{ id := id, key := k, staging := stagingName k.versionId uuid }]) :
    e'.Arranged P := by
  have hfresh : ∀ f ∈ e.disk, f.path ≠ (k.objectId, stagingName k.versionId uuid) :=
    Table.lookup_eq_none.mp ha.unused
  have hnone : ∀ w ∈ e.writers, w.Staged → w.stagingPath ≠ (k.objectId, stagingName k.versionId uuid) := by
    intro w hm hs he
    obtain ⟨f, hf, hp, -⟩ := h.staged w hm hs
    exact hfresh f hf (hp.trans he)
  constructor
  · rw [hd]
    exact Table.nodup_append_fresh h.paths hfresh
  · intro w hm
    rw [hw, List.mem_append, List.mem_singleton] at hm
    rcases hm with hm | rfl
    · exact h.names w hm
    · exact ⟨ha.valid, uuid, rfl⟩
  · intro w hm hs
    rw [hw, List.mem_append, List.mem_singleton] at hm
    rw [hd]
    rcases hm with hm | rfl
    · obtain ⟨f, hf, hp⟩ := h.staged w hm hs
      exact ⟨f, List.mem_append_left _ hf, hp⟩
    · exact ⟨_, List.mem_append_right _ List.mem_cons_self, rfl, rfl⟩
  · intro w hm w' hm' hs hs' he
    rw [hw, List.mem_append, List.mem_singleton] at hm hm'
    rcases hm with hm | rfl <;> rcases hm' with hm' | rfl
    · exact h.apart w hm w' hm' hs hs' he
    · exact absurd he (hnone w hm hs)
    · exact absurd he.symm (hnone w' hm' hs')
    · rfl
  · intro f hf
    rw [hd, List.mem_append, List.mem_singleton] at hf
    rw [hw]
    rcases hf with hf | rfl
    · refine (h.folders f hf).imp_left ?_
      rintro ⟨w, hm, hs⟩
      exact ⟨w, List.mem_append_left _ hm, hs⟩
    · exact Or.inl ⟨_, List.mem_append_right _ List.mem_cons_self, Or.inl rfl, rfl⟩

/-- A staged write goes on, and at most the content of its staging directory changes. -/
lemma Arranged.proceed (h : e.Arranged P) (hl : e.Ledger cfg) (hm : w ∈ e.writers)
    {f : Writer → Writer} {g : Folder → Folder}
    (hw : e'.writers = Table.amend Writer.id w.id f e.writers)
    (hd : e'.disk = Table.amend Folder.path w.stagingPath g e.disk) (hid : (f w).id = w.id)
    (hkey : (f w).key = w.key) (hstaging : (f w).staging = w.staging) (hs : w.Staged) (hs' : (f w).Staged)
    (hg : ∀ x, (g x).path = x.path)
    (hmeta : ∀ x, x.dir.metadata = .absent → (g x).dir.metadata = .absent) : e'.Arranged P := by
  have hpath : (f w).stagingPath = w.stagingPath := by
    rw [Writer.stagingPath, hkey, hstaging]
    rfl
  have himage : ∀ x ∈ e'.writers, ∃ y ∈ e.writers, x.id = y.id ∧ x.key = y.key ∧ x.staging = y.staging ∧
      x.stagingPath = y.stagingPath ∧ (x.Staged → y.Staged) := by
    intro x hx
    rw [hw] at hx
    rcases (Table.mem_amend_iff hl.ids hm).mp hx with rfl | ⟨hx, -⟩
    · exact ⟨w, hm, hid, hkey, hstaging, hpath, fun _ => hs⟩
    · exact ⟨x, hx, rfl, rfl, rfl, rfl, id⟩
  have hstill : ∀ y ∈ e.writers, y.Staged → ∃ x ∈ e'.writers, x.Staged ∧ x.stagingPath = y.stagingPath := by
    intro y hy hys
    rw [hw]
    by_cases he : y.id = w.id
    · obtain rfl := Table.eq_of_key hl.ids hy hm he
      exact ⟨f y, (Table.mem_amend_iff hl.ids hm).mpr (Or.inl rfl), hs', hpath⟩
    · exact ⟨y, (Table.mem_amend_iff hl.ids hm).mpr (Or.inr ⟨hy, he⟩), hys, rfl⟩
  constructor
  · rw [hd]
    exact Table.nodup_amend hg h.paths
  · intro x hx
    obtain ⟨y, hy, -, hk, hst, -⟩ := himage x hx
    rw [hk, hst]
    exact h.names y hy
  · intro x hx hxs
    obtain ⟨y, hy, -, -, -, hp, hys⟩ := himage x hx
    obtain ⟨z, hz, hzp, hzm⟩ := h.staged y hy (hys hxs)
    rw [hd]
    refine ⟨_, Table.mem_amend.mpr ⟨z, hz, rfl⟩, ?_⟩
    split_ifs
    · exact ⟨(hg z).trans (hzp.trans hp.symm), hmeta z hzm⟩
    · exact ⟨hzp.trans hp.symm, hzm⟩
  · intro x hx x' hx' hxs hxs' he
    obtain ⟨y, hy, hi, -, -, hp, hys⟩ := himage x hx
    obtain ⟨y', hy', hi', -, -, hp', hys'⟩ := himage x' hx'
    rw [hi, hi']
    exact h.apart y hy y' hy' (hys hxs) (hys' hxs') (hp.symm.trans (he.trans hp'))
  · intro x hx
    rw [hd] at hx
    obtain ⟨z, hz, rfl⟩ := Table.mem_amend.mp hx
    split_ifs with he
    · obtain ⟨y, hy, hys, hp⟩ := hstill w hm hs
      exact Or.inl ⟨y, hy, hys, hp.trans (he.symm.trans (hg z).symm)⟩
    · refine (h.folders z hz).imp_left ?_
      rintro ⟨y, hy, hys, hp⟩
      obtain ⟨y', hy', hys', hp'⟩ := hstill y hy hys
      exact ⟨y', hy', hys', hp'.trans hp⟩

/-- A staged write loses its staging directory, and an object may be published in its place. -/
lemma Arranged.unstage (h : e.Arranged P) (hl : e.Ledger cfg) (hm : w ∈ e.writers)
    {phase : Phase} {n : Option Folder}
    (hw : e'.writers = Table.amend Writer.id w.id (Writer.enter phase) e.writers)
    (hd : e'.disk = Table.remove Folder.path w.stagingPath e.disk ++ n.toList) (hs : w.Staged)
    (hs' : ¬(w.enter phase).Staged)
    (hnew : ∀ f ∈ n, P f ∧ ∀ x ∈ e.disk, x.path ≠ f.path) : e'.Arranged P := by
  have himage : ∀ x ∈ e'.writers, x.Staged → x ∈ e.writers ∧ x.stagingPath ≠ w.stagingPath := by
    intro x hx hxs
    rw [hw] at hx
    rcases (Table.mem_amend_iff hl.ids hm).mp hx with rfl | ⟨hx, hne⟩
    · exact absurd hxs hs'
    · exact ⟨hx, fun he => hne (h.apart x hx w hm hxs hs he)⟩
  have hstill : ∀ y ∈ e.writers, y.stagingPath ≠ w.stagingPath → y ∈ e'.writers := by
    intro y hy hne
    rw [hw]
    refine (Table.mem_amend_iff hl.ids hm).mpr (Or.inr ⟨hy, fun he => ?_⟩)
    rw [Table.eq_of_key hl.ids hy hm he] at hne
    exact hne rfl
  constructor
  · rw [hd]
    cases n with
    | none => simpa using Table.nodup_remove h.paths _
    | some f =>
      refine Table.nodup_append_fresh (Table.nodup_remove h.paths _) fun x hx => ?_
      exact (hnew f rfl).2 x (Table.mem_remove.mp hx).1
  · intro x hx
    rw [hw] at hx
    rcases (Table.mem_amend_iff hl.ids hm).mp hx with rfl | ⟨hx, -⟩
    · exact h.names w hm
    · exact h.names x hx
  · intro x hx hxs
    obtain ⟨hx, hne⟩ := himage x hx hxs
    obtain ⟨f, hf, hp, hmeta⟩ := h.staged x hx hxs
    rw [hd]
    exact ⟨f, List.mem_append_left _ (Table.mem_remove.mpr ⟨hf, hp ▸ hne⟩), hp, hmeta⟩
  · intro x hx x' hx' hxs hxs' he
    exact h.apart x (himage x hx hxs).1 x' (himage x' hx' hxs').1 hxs hxs' he
  · intro f hf
    rw [hd, List.mem_append] at hf
    rcases hf with hf | hf
    · obtain ⟨hf, hne⟩ := Table.mem_remove.mp hf
      refine (h.folders f hf).imp_left ?_
      rintro ⟨y, hy, hys, hp⟩
      exact ⟨y, hstill y hy (hp ▸ hne), hys, hp⟩
    · exact Or.inr (hnew f (by simpa using hf)).1

lemma Arranged.finish (h : e.Arranged P) (hs : ¬w.Staged) (hl : e.Ledger cfg) (hm : w ∈ e.writers)
    (hd : e'.disk = e.disk) (hw : e'.writers = Table.remove Writer.id w.id e.writers) :
    e'.Arranged P where
  paths := hd ▸ h.paths
  names x hx := h.names x (Table.mem_remove.mp (hw ▸ hx)).1
  staged x hx hxs := hd ▸ h.staged x (Table.mem_remove.mp (hw ▸ hx)).1 hxs
  apart x hx x' hx' := h.apart x (Table.mem_remove.mp (hw ▸ hx)).1 x' (Table.mem_remove.mp (hw ▸ hx')).1
  folders f hf := by
    refine (h.folders f (hd ▸ hf)).imp_left ?_
    rintro ⟨y, hy, hys, hp⟩
    refine ⟨y, hw ▸ Table.mem_remove.mpr ⟨hy, fun he => hs ?_⟩, hys, hp⟩
    rwa [← Table.eq_of_key hl.ids hy hm he]

lemma Arranged.write (h : e.Arranged P) {f : Folder} (hf : P f)
    (hnew : ∀ x ∈ e.disk, x.path ≠ f.path) (hd : e'.disk = e.disk ++ [f]) (hw : e'.writers = e.writers) :
    e'.Arranged P where
  paths := by
    rw [hd]
    exact Table.nodup_append_fresh h.paths hnew
  names x hx := h.names x (hw ▸ hx)
  staged x hx hxs := by
    obtain ⟨g, hg, hp⟩ := h.staged x (hw ▸ hx) hxs
    exact ⟨g, hd ▸ List.mem_append_left _ hg, hp⟩
  apart x hx x' hx' := h.apart x (hw ▸ hx) x' (hw ▸ hx')
  folders g hg := by
    rw [hd, List.mem_append, List.mem_singleton] at hg
    rcases hg with hg | rfl
    · rw [hw]
      exact h.folders g hg
    · exact Or.inr hf

lemma Arranged.delete (h : e.Arranged P) {f : Folder} (hf : f ∈ e.disk)
    (hm : f.dir.metadata.isFile = true) (hd : e'.disk = Table.remove Folder.path f.path e.disk)
    (hw : e'.writers = e.writers) : e'.Arranged P where
  paths := hd ▸ Table.nodup_remove h.paths _
  names x hx := h.names x (hw ▸ hx)
  staged x hx hxs := by
    obtain ⟨g, hg, hp, hmeta⟩ := h.staged x (hw ▸ hx) hxs
    refine ⟨g, hd ▸ Table.mem_remove.mpr ⟨hg, fun he => ?_⟩, hp, hmeta⟩
    rw [← Table.eq_of_key h.paths hg hf he, hmeta] at hm
    cases hm
  apart x hx x' hx' := h.apart x (hw ▸ hx) x' (hw ▸ hx')
  folders g hg := by
    rw [hw]
    exact h.folders g (Table.mem_remove.mp (hd ▸ hg)).1

lemma published_folder {k : Key} (hk : k.Valid) {b : Blocks UInt8} (hb : b.Regular cfg.chunkSizeBytes) :
    Folder.Published sha256 cfg ⟨k.objectId, k.versionId, objectDir sha256 cfg k b.finish⟩ :=
  ⟨k, b.finish, hk, rfl, rfl, hb.cut⟩

lemma Change.arranged {a : Action} {r : Reply} (hc : Change sha256 cfg e a e' r) (hl : e.Ledger cfg)
    (hP : ∀ f, f.Published sha256 cfg → P f) (h : e.Arranged P) : e'.Arranged P := by
  cases hc with
  | idle => exact h
  | raised x => exact h
  | started id k uuid hid ha => exact h.start ha rfl rfl
  | stored w b hw hp hb hown =>
    exact h.proceed hl (writer?_mem hw) rfl rfl rfl rfl rfl (Or.inl hp) (Or.inl hp) (fun _ => rfl)
      fun _ _ => rfl
  | failing w x hw hp hown =>
    refine h.proceed (g := id) hl (writer?_mem hw) rfl ?_ rfl rfl rfl (Or.inl hp)
      (w.staged_enter_failing x) (fun _ => rfl) fun _ hx => hx
    simp [amendWriter, Table.amend]
  | published w hw hp hfree hown =>
    have hm := writer?_mem hw
    refine h.unstage (n := some _) hl hm rfl rfl (Or.inl hp) w.not_staged_enter_published ?_
    rintro f hf
    cases hf
    exact ⟨hP _ (published_folder (h.names w hm).1 (hl.received w hm).1), Table.lookup_eq_none.mp hfree⟩
  | cleaned w x hw hp hown =>
    have hs : w.Staged := hp.imp_right fun hp => ⟨x, hp⟩
    refine h.unstage (n := none) hl (writer?_mem hw) rfl ?_ hs (w.not_staged_enter_cleaned x) (by simp)
    simp [amendWriter, removeTree]
  | accounted w hw hp hown =>
    have hs : ¬w.Staged := by simp [Writer.Staged, hp]
    exact h.finish hs hl (writer?_mem hw) rfl rfl
  | released w x hw hp =>
    have hs : ¬w.Staged := by simp [Writer.Staged, hp]
    exact h.finish hs hl (writer?_mem hw) rfl rfl
  | wrote k b staging ha hfree hb hown =>
    have hreg := (Blocks.regular_empty cfg.chunkSizeBytes_pos).feed b
    exact h.write (hP _ (published_folder ha.valid hreg)) (Table.lookup_eq_none.mp hfree) rfl rfl
  | deleted k f hk hf hm =>
    refine h.delete (folder?_mem hf) hm ?_ rfl
    rw [show f.path = k.path from Table.lookup_key hf]
    rfl

lemma Change.shelved {a : Action} {r : Reply} (hc : Change sha256 cfg e a e' r) (hl : e.Ledger cfg)
    (h : e.Shelved sha256 cfg) : e'.Shelved sha256 cfg :=
  hc.arranged hl (fun _ hf => hf) h

lemma arranged_empty (P : Folder → Prop) : ({} : Engine).Arranged P where
  paths := List.nodup_nil
  names := by simp
  staged := by simp
  apart := by simp
  folders := by simp

end Engine

end Vault.Storage
