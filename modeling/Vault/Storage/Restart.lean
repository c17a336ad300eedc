import Vault.Storage.WriteOnce

/-! `StorageEngine.__init__` on a directory that an earlier engine used. A stop of the process leaves the
objects as they are and each staging directory with whatever its write had brought there; a stop inside
`write_bytes` is one between the steps that it consists of. The new engine removes the directories named like
staging directories and counts the chunks of the others, unless their names end in `.upload`. -/

namespace Vault.Storage

open Vault.Common Vault.Lib

instance (w : Writer) : Decidable w.Staged :=
  match h : w.phase with
  | .receiving => .isTrue (Or.inl h)
  | .failing x => .isTrue (Or.inr ⟨x, h⟩)
  | .published | .cleaned _ => .isFalse (by simp [Writer.Staged, h])

/-- What a stop leaves in the staging directories. -/
abbrev Leftover := String × String → MetadataFile × List (Text × Entry)

def cleanupStagingDirectories (disk : List Folder) : List Folder :=
  disk.filter (fun f => ¬MatchesStaging f.name)

def scanUsedPayloadBytes (disk : List Folder) : ℕ :=
  ((disk.filter (fun f => ¬EndsUpload f.name)).map (fun f => payloadBytes f.dir)).sum

namespace Engine

def StagedAt (e : Engine) (path : String × String) : Prop := ∃ w ∈ e.writers, w.Staged ∧ w.stagingPath = path

instance (e : Engine) (path : String × String) : Decidable (e.StagedAt path) :=
  inferInstanceAs (Decidable (∃ w ∈ e.writers, _))

def stop (left : Leftover) (e : Engine) : List Folder :=
  e.disk.map fun f =>
    if e.StagedAt f.path then { f with dir := { metadata := (left f.path).1, entries := (left f.path).2 } } else f

/-- The constructor. -/
def restart (disk : List Folder) : Engine :=
  { disk := cleanupStagingDirectories disk,
    usedBytes := scanUsedPayloadBytes (cleanupStagingDirectories disk) }

end Engine

/-- A storage node: the engine of the running process and what it was configured with. -/
structure Host where
  cfg : EngineConfig
  engine : Engine := {}

inductive Event
  | act (a : Action)
  | restart (left : Leftover) (cfg : EngineConfig)

namespace Host

variable (sha256 : Bytes → Checksum)

def step (h : Host) : Event → Host
  | .act a => { h with engine := h.engine.step sha256 h.cfg a }
  | .restart left cfg => { cfg := cfg, engine := .restart (h.engine.stop left) }

abbrev run (h : Host) (events : List Event) : Host := Runs.run (step sha256) h events

/-- The books are right and every directory is a staging directory or an object. -/
structure Orderly (P : Folder → Prop) (h : Host) : Prop where
  ledger : h.engine.Ledger h.cfg
  arranged : h.engine.Arranged P

end Host

/-- The name keeps the object through a restart, with its bytes counted. -/
def Folder.Kept (f : Folder) : Prop :=
  ¬MatchesStaging f.name ∧ (EndsUpload f.name → payloadBytes f.dir = 0)

def Folder.IsObject (sha256 : Bytes → Checksum) (f : Folder) : Prop := ∃ cfg, f.Published sha256 cfg

namespace Engine

variable {P : Folder → Prop} {e : Engine} {left : Leftover}

lemma Arranged.matchesStaging (h : e.Arranged P) {f : Folder} (hf : e.StagedAt f.path) :
    MatchesStaging f.name := by
  obtain ⟨w, hm, -, hp⟩ := hf
  obtain ⟨-, uuid, hname⟩ := h.names w hm
  have hfile : w.staging = f.name := congrArg Prod.snd hp
  rw [← hfile, hname]
  exact matchesStaging_stagingName _ _

/-- Whatever the stop left in the staging directories is gone. -/
lemma Arranged.restart_disk (h : e.Arranged P) :
    (restart (e.stop left)).disk = e.disk.filter (fun f => ¬MatchesStaging f.name) := by
  change cleanupStagingDirectories (e.stop left) = _
  unfold cleanupStagingDirectories stop
  induction e.disk with
  | nil => rfl
  | cons f disk ih =>
    by_cases hst : e.StagedAt f.path
    · have hmatch : ¬(¬MatchesStaging f.name) := not_not.mpr (h.matchesStaging hst)
      rw [List.map_cons, if_pos hst, List.filter_cons_of_neg (by simpa using hmatch),
        List.filter_cons_of_neg (by simpa using hmatch), ih]
    · rw [List.map_cons, if_neg hst, List.filter_cons, List.filter_cons, ih]

lemma Arranged.folder?_restart (h : e.Arranged P) (left : Leftover) {path : String × String} (hm : ¬MatchesStaging path.2) :
    (restart (e.stop left)).folder? path = e.folder? path := by
  rw [folder?, h.restart_disk, Table.lookup, List.find?_filter]
  refine congrArg (fun p => e.disk.find? p) (funext fun f => ?_)
  by_cases hp : f.path = path
  · have hname : f.name = path.2 := congrArg Prod.snd hp
    simp [hp, hname, hm]
  · simp [hp]

lemma Arranged.folder?_restart_none (h : e.Arranged P) {path : String × String} (hm : MatchesStaging path.2) :
    (restart (e.stop left)).folder? path = none := by
  refine Table.lookup_eq_none.mpr fun f hf hp => ?_
  rw [h.restart_disk, List.mem_filter] at hf
  have hname : f.name = path.2 := congrArg Prod.snd hp
  simp [hname, hm] at hf

/-- The directories left are no staging directories. -/
lemma Arranged.after_restart (h : e.Arranged P) : (restart (e.stop left)).Arranged P where
  paths := by
    rw [h.restart_disk]
    exact h.paths.sublist (List.filter_sublist.map _)
  names := by simp [Engine.restart]
  staged := by simp [Engine.restart]
  apart := by simp [Engine.restart]
  folders := by
    intro f hf
    rw [h.restart_disk, List.mem_filter] at hf
    refine (h.folders f hf.1).imp_left fun hst => ?_
    have hmatch := h.matchesStaging hst
    simp [hmatch] at hf

lemma ledger_restart (cfg : EngineConfig) (disk : List Folder) : (Engine.restart disk).Ledger cfg where
  ids := List.nodup_nil
  keys := List.nodup_nil
  inflight := by simp [Engine.restart]
  reserved := rfl
  received := by simp [Engine.restart]

/-- The bytes that the new engine counts, and those that it leaves out. -/
lemma Arranged.restart_usedBytes (h : e.Arranged P) (left : Leftover) (hP : ∀ f, P f → f.dir.metadata.isFile = true) :
    (restart (e.stop left)).usedBytes +
      ((e.disk.filter (fun f => EndsUpload f.name)).map Folder.publishedBytes).sum = e.publishedBytes := by
  have hcounted : (restart (e.stop left)).usedBytes =
      ((e.disk.filter (fun f => ¬EndsUpload f.name)).map Folder.publishedBytes).sum := by
    change scanUsedPayloadBytes (restart (e.stop left)).disk = _
    rw [h.restart_disk, scanUsedPayloadBytes, List.filter_filter]
    refine congrArg List.sum ?_
    have hfilter : e.disk.filter (fun f => decide (¬EndsUpload f.name) && decide (¬MatchesStaging f.name)) =
        e.disk.filter (fun f => ¬EndsUpload f.name) := by
      refine List.filter_congr fun f _ => ?_
      by_cases hends : EndsUpload f.name
      · simp [hends]
      · have hno : ¬MatchesStaging f.name := fun hm => hends hm.endsUpload
        simp [hends, hno]
    rw [hfilter]
    refine List.map_congr_left fun f hf => ?_
    rw [List.mem_filter] at hf
    rcases h.folders f hf.1 with hst | hf'
    · have hends := (h.matchesStaging hst).endsUpload
      simp [hends] at hf
    · exact (if_pos (hP f hf')).symm
  rw [hcounted, Nat.add_comm]
  exact List.sum_map_filter_add_sum_map_filter_not _ _ _

/-- The second engine, on the disk of the first, recovers exactly its objects. -/
structure Recovers (sha256 : Bytes → Checksum) (cfg cfg' : EngineConfig) (e e' : Engine) : Prop where
  objects : ∀ k, e.Exists k → ∃ b, e.read cfg k = .ok b ∧ e'.read cfg' k = .ok b ∧
    verify sha256 k ((e'.folder? k.path).map Folder.dir) = verify sha256 k ((e.folder? k.path).map Folder.dir)
  stagings : ∀ w ∈ e.writers, w.Staged → e'.folder? w.stagingPath = none
  used : e'.usedBytes = e.publishedBytes

variable {sha256 : Bytes → Checksum} {cfg cfg' : EngineConfig}

lemma isFile_of_isObject {f : Folder} (h : f.IsObject sha256) : f.dir.metadata.isFile = true := by
  obtain ⟨cfg, k, chunks, -, -, hd, -⟩ := h
  rw [hd]
  rfl

lemma read_none {k : Key} (h : e.folder? k.path = none) (b : Bytes) : e.read cfg k ≠ .ok b := by
  rw [read, h]
  unfold readBytes iterChunks streamLayout
  cases hv : validateIds k with
  | error x => simp [bind, Except.bind]
  | ok _ => simp [bind, Except.bind, readMetadata]

/-- A directory with metadata is an object, under a key that is valid. -/
lemma Arranged.object (h : e.Arranged (Folder.IsObject sha256)) {f : Folder} (hf : f ∈ e.disk)
    (hm : f.dir.metadata.isFile = true) : ∃ (k : Key) (cfg : EngineConfig) (chunks : List Bytes),
      k.Valid ∧ f.path = k.path ∧ f.dir = objectDir sha256 cfg k chunks := by
  rcases h.folders f hf with ⟨w, hw, hst, hp⟩ | ⟨cfg, k, chunks, hk, hp, hd, -⟩
  · exact absurd hp.symm (h.path_ne hw hst hf hm)
  · exact ⟨k, cfg, chunks, hk, hp, hd⟩

lemma Arranged.recovers_iff (h : e.Arranged (Folder.IsObject sha256)) :
    Recovers sha256 cfg cfg' e (restart (e.stop left)) ↔
      ∀ f ∈ e.disk, f.dir.metadata.isFile = true → Folder.Kept f := by
  have hused := h.restart_usedBytes left fun f hf => isFile_of_isObject hf
  constructor
  · intro hr f hf hm
    obtain ⟨k, cfg₀, chunks, hk, hp, hd⟩ := h.object hf hm
    have hlookup : e.folder? k.path = some f := (Table.lookup_iff h.paths).mpr ⟨hf, hp⟩
    refine ⟨fun hmatch => ?_, fun hends => ?_⟩
    · obtain ⟨b, -, hread, -⟩ := hr.objects k ⟨f, hlookup, hm⟩
      have hname : f.name = k.path.2 := congrArg Prod.snd hp
      exact read_none (h.folder?_restart_none (hname ▸ hmatch)) b hread
    · have hzero : ((e.disk.filter (fun f => EndsUpload f.name)).map Folder.publishedBytes).sum = 0 := by
        have := hr.used
        omega
      have hmem : f ∈ e.disk.filter (fun f => EndsUpload f.name) := by
        rw [List.mem_filter]
        exact ⟨hf, by simpa using hends⟩
      have hbytes := List.sum_eq_zero_iff.mp hzero _ (List.mem_map_of_mem hmem)
      rwa [Folder.publishedBytes, if_pos hm] at hbytes
  · intro hkept
    refine ⟨?_, ?_, ?_⟩
    · rintro k ⟨f, hlookup, hm⟩
      obtain ⟨k', cfg₀, chunks, hk, hp, hd⟩ := h.object (folder?_mem hlookup) hm
      have hpath : f.path = k.path := Table.lookup_key hlookup
      obtain rfl := Key.path_injective (hpath.symm.trans hp)
      have hname : f.name = k.path.2 := congrArg Prod.snd hp
      have hsame := h.folder?_restart left (hname ▸ (hkept f (folder?_mem hlookup) hm).1)
      rw [read, read, hsame, hlookup, Option.map_some, hd]
      exact ⟨_, readBytes_objectDir hk cfg chunks, readBytes_objectDir hk cfg' chunks, rfl⟩
    · intro w hw hst
      refine h.folder?_restart_none ?_
      obtain ⟨-, uuid, hname⟩ := h.names w hw
      change MatchesStaging w.staging
      rw [hname]
      exact matchesStaging_stagingName _ _
    · have hzero : ((e.disk.filter (fun f => EndsUpload f.name)).map Folder.publishedBytes).sum = 0 := by
        refine List.sum_eq_zero_iff.mpr fun n hn => ?_
        obtain ⟨f, hf, rfl⟩ := List.mem_map.mp hn
        rw [List.mem_filter] at hf
        unfold Folder.publishedBytes
        split_ifs with hm
        · exact (hkept f hf.1 hm).2 (by simpa using hf.2)
        · rfl
      omega

end Engine

namespace Host

variable {sha256 : Bytes → Checksum} {P : Folder → Prop} {h : Host}

lemma Orderly.step (ho : h.Orderly P) (hP : ∀ cfg f, f.Published sha256 cfg → P f) (ev : Event) :
    (h.step sha256 ev).Orderly P := by
  cases ev with
  | act a =>
    have hc : Engine.Change sha256 h.cfg h.engine a (h.engine.step sha256 h.cfg a) _ :=
      Engine.perform_change h.engine a
    exact ⟨hc.ledger ho.ledger, hc.arranged ho.ledger (hP h.cfg) ho.arranged⟩
  | restart left cfg => exact ⟨Engine.ledger_restart cfg _, ho.arranged.after_restart⟩

lemma orderly_empty (P : Folder → Prop) (cfg : EngineConfig) : Orderly P { cfg := cfg } :=
  ⟨Engine.ledger_empty cfg, Engine.arranged_empty P⟩

lemma orderly_run (sha256 : Bytes → Checksum) (cfg : EngineConfig) (events : List Event) :
    (run sha256 { cfg := cfg } events).Orderly (Folder.IsObject sha256) :=
  Runs.run_invariant (fun _ ev ho => ho.step (fun cfg _ hf => ⟨cfg, hf⟩) ev) (orderly_empty _ cfg) events

theorem restart_recovers_iff (sha256 : Bytes → Checksum) (cfg cfg' : EngineConfig) (events : List Event)
    (left : Leftover) :
    Engine.Recovers sha256 (run sha256 { cfg := cfg } events).cfg cfg' (run sha256 { cfg := cfg } events).engine
        (.restart ((run sha256 { cfg := cfg } events).engine.stop left)) ↔
      ∀ f ∈ (run sha256 { cfg := cfg } events).engine.disk, f.dir.metadata.isFile = true → Folder.Kept f :=
  (orderly_run sha256 cfg events).arranged.recovers_iff

/-- The version identifier is one that the engine accepts. -/
def hiddenKey : Key := ⟨"report", ".v1.upload"⟩

def storedHidden : Host := run plainHash { cfg := smallEngine } [.act (.writeBytes hiddenKey (.bytes [1, 2, 3]) "1" 100)]

theorem hidden_object_removed :
    hiddenKey.Valid ∧ storedHidden.engine.read smallEngine hiddenKey = .ok [1, 2, 3] ∧
      ¬Engine.Recovers plainHash smallEngine smallEngine storedHidden.engine
        (.restart (storedHidden.engine.stop fun _ => (.absent, []))) := by
  refine ⟨by decide +kernel, by decide +kernel, fun h => ?_⟩
  obtain ⟨b, -, hread, -⟩ := h.objects hiddenKey (by decide +kernel)
  exact Engine.read_none (by decide +kernel) b hread

end Host

end Vault.Storage
