import Vault.Storage.FailedWrites
import Vault.Storage.Reading

/-! An object version is written once: what one write published stays readable, byte for byte, and no
second write publishes until the version is deleted. A write that fails undoes its own share of the shared
state and nothing else. -/

namespace Vault.Storage

open Vault.Common Vault.Lib

/-- What the step made visible under its key. -/
def Reply.publication : Reply → Option (Key × Bytes)
  | .published k b | .wrote k b => some (k, b)
  | _ => none

def Reply.Publishes (k : Key) (r : Reply) : Prop := r.publication.map Prod.fst = some k

instance (k : Key) (r : Reply) : Decidable (r.Publishes k) := inferInstanceAs (Decidable (_ = _))

lemma Key.path_injective : Function.Injective Key.path := by
  rintro ⟨o, v⟩ ⟨o', v'⟩ h
  cases h
  rfl

namespace Engine

variable (sha256 : Bytes → Checksum) (cfg : EngineConfig)

def replies (e : Engine) (actions : List Action) : List Reply :=
  Runs.replies (step sha256 cfg) (fun e a => (e.perform sha256 cfg a).2) e actions

def read (e : Engine) (k : Key) : Except EngineError Bytes :=
  readBytes cfg k ((e.folder? k.path).map Folder.dir)

variable {sha256 cfg} {e e' : Engine} {a : Action} {r : Reply} {k : Key} {f : Folder}

lemma folder?_addFolder (h : e.folder? f.path = none) : (e.addFolder f).folder? f.path = some f :=
  Table.lookup_concat_self h

lemma folder?_removeTree {path path' : String × String} (h : e.folder? path = none) :
    (e.removeTree path').folder? path = none :=
  Table.lookup_remove_of_none h

lemma Change.keeps_object (hc : Change sha256 cfg e a e' r) (hs : e.Shelved sha256 cfg) (hr : r ≠ .deleted k)
    (hf : e.folder? k.path = some f) (hmeta : f.dir.metadata.isFile = true) : e'.folder? k.path = some f := by
  have hpath : f.path = k.path := Table.lookup_key hf
  have hapart : ∀ {w : Writer}, e.writer? w.id = some w → w.Staged → k.path ≠ w.stagingPath := by
    intro w hw hst
    rw [← hpath]
    exact hs.path_ne (writer?_mem hw) hst (folder?_mem hf) hmeta
  cases hc with
  | idle | raised | accounted | released | failing => exact hf
  | started id k' uuid hid ha => exact Table.lookup_append_of_some hf _
  | stored w b hw hp hb hown =>
    have hsame : Table.lookup Folder.path k.path (Table.amend Folder.path w.stagingPath
        (fun f => { f with dir := stagingDir (w.blocks.feed cfg.chunkSizeBytes b) }) e.disk) =
        Table.lookup Folder.path k.path e.disk := by
      refine Table.lookup_amend_ne ?_ _ (hapart hw (Or.inl hp))
      intro g
      rfl
    exact hsame.trans hf
  | published w hw hp hfree hown =>
    exact Table.lookup_append_of_some ((Table.lookup_remove_ne (hapart hw (Or.inl hp)) _).trans hf) _
  | cleaned w x hw hp hown =>
    exact (Table.lookup_remove_ne (hapart hw (hp.imp_right fun hp => ⟨x, hp⟩)) _).trans hf
  | wrote k' b staging ha hfree hb hown => exact Table.lookup_append_of_some hf _
  | deleted k' f' hk hf' hm =>
    have hne : k.path ≠ k'.path := fun he => hr (congrArg Reply.deleted (Key.path_injective he.symm))
    exact (Table.lookup_remove_ne hne _).trans hf

/-- A publication finds no directory under its key and leaves the object there. -/
lemma Change.publication {b : Bytes} (hc : Change sha256 cfg e a e' r) (hs : e.Shelved sha256 cfg)
    (hr : r.publication = some (k, b)) :
    e.folder? k.path = none ∧ k.Valid ∧ ∃ chunks, chunks.flatten = b ∧
      e'.folder? k.path = some ⟨k.objectId, k.versionId, objectDir sha256 cfg k chunks⟩ := by
  cases hc with
  | idle | raised | accounted | released | failing | started | stored | cleaned | deleted => cases hr
  | published w hw hp hfree hown =>
    cases hr
    refine ⟨hfree, (hs.names w (writer?_mem hw)).1, w.blocks.finish, w.blocks.flatten_finish, ?_⟩
    let g : Folder := ⟨w.key.objectId, w.key.versionId, objectDir sha256 cfg w.key w.blocks.finish⟩
    exact folder?_addFolder (f := g) (folder?_removeTree hfree)
  | wrote k' b' staging ha hfree hb hown =>
    cases hr
    have hflat := Blocks.contents_feed (Blocks.regular_empty cfg.chunkSizeBytes_pos) b
    refine ⟨hfree, ha.valid, _, (Blocks.flatten_finish _).trans hflat, ?_⟩
    let g : Folder := ⟨k.objectId, k.versionId, objectDir sha256 cfg k
      (({} : Blocks UInt8).feed cfg.chunkSizeBytes b).finish⟩
    exact folder?_addFolder (f := g) hfree

/-- The directory of the key holds this object. -/
def Holds (e : Engine) (k : Key) (d : Dir) : Prop :=
  e.folder? k.path = some ⟨k.objectId, k.versionId, d⟩ ∧ d.metadata.isFile = true

lemma Holds.step {d : Dir} (h : e.Holds k d) (hs : e.Shelved sha256 cfg)
    (hr : (e.perform sha256 cfg a).2 ≠ .deleted k) : (e.step sha256 cfg a).Holds k d :=
  ⟨(perform_change e a).keeps_object hs hr h.1 h.2, h.2⟩

lemma Holds.run {d : Dir} {actions : List Action} (h : e.Holds k d) (hs : e.Sound sha256 cfg)
    (hd : Reply.deleted k ∉ e.replies sha256 cfg actions) : (e.run sha256 cfg actions).Holds k d := by
  have hrun := Runs.run_along (I := fun e : Engine => e.Sound sha256 cfg ∧ e.Holds k d)
    (fun e a ha he => ⟨he.1.step a, he.2.step he.1.shelved ha⟩) ⟨hs, h⟩ (Runs.along_of_not_mem hd)
  exact hrun.2

lemma Holds.read {chunks : List Bytes} {cfg' : EngineConfig} (h : e.Holds k (objectDir sha256 cfg k chunks))
    (hk : k.Valid) : e.read cfg' k = .ok chunks.flatten := by
  rw [Engine.read, h.1]
  exact readBytes_objectDir hk cfg' chunks

lemma holds_of_publication {b : Bytes} (hs : e.Shelved sha256 cfg)
    (hr : (e.perform sha256 cfg a).2.publication = some (k, b)) :
    k.Valid ∧ ∃ chunks, chunks.flatten = b ∧ (e.step sha256 cfg a).Holds k (objectDir sha256 cfg k chunks) := by
  obtain ⟨-, hk, chunks, hb, hf⟩ := (perform_change e a).publication hs hr
  exact ⟨hk, chunks, hb, hf, rfl⟩

lemma Holds.not_publishes {d : Dir} (h : e.Holds k d) (hs : e.Shelved sha256 cfg) :
    ¬(e.perform sha256 cfg a).2.Publishes k := by
  intro hp
  obtain ⟨⟨k', b⟩, hr, rfl⟩ := Option.map_eq_some_iff.mp hp
  have hnone := ((perform_change e a).publication hs hr).1
  rw [h.1] at hnone
  cases hnone

lemma Holds.none_publishes {d : Dir} {actions : List Action} (h : e.Holds k d) (hs : e.Sound sha256 cfg)
    (hd : Reply.deleted k ∉ e.replies sha256 cfg actions) :
    (e.replies sha256 cfg actions).countP (·.Publishes k) = 0 := by
  induction actions generalizing e with
  | nil => rfl
  | cons a actions ih =>
    have hne : (e.perform sha256 cfg a).2 ≠ .deleted k ∧
        Reply.deleted k ∉ (e.step sha256 cfg a).replies sha256 cfg actions := by
      rw [← ne_comm, ← not_or]
      exact fun hr => hd (List.mem_cons.mpr hr)
    rw [replies, Runs.replies, List.countP_cons_of_neg (by simpa using h.not_publishes hs.shelved)]
    exact ih (h.step hs.shelved hne.1) (hs.step a) hne.2

/-- Without a delete of the key at most one of the writes publishes it. -/
lemma publications_le_one {actions : List Action} (hs : e.Sound sha256 cfg)
    (hd : Reply.deleted k ∉ e.replies sha256 cfg actions) :
    (e.replies sha256 cfg actions).countP (·.Publishes k) ≤ 1 := by
  induction actions generalizing e with
  | nil => exact Nat.zero_le 1
  | cons a actions ih =>
    have hrest : Reply.deleted k ∉ (e.step sha256 cfg a).replies sha256 cfg actions :=
      fun hr => hd (List.mem_cons_of_mem _ hr)
    rw [replies, Runs.replies]
    by_cases hp : (e.perform sha256 cfg a).2.Publishes k
    · obtain ⟨⟨k', b⟩, hr, rfl⟩ := Option.map_eq_some_iff.mp hp
      obtain ⟨-, chunks, -, hholds⟩ := holds_of_publication hs.shelved hr
      have hzero := hholds.none_publishes (hs.step a) hrest
      rw [List.countP_cons_of_pos (by simpa using hp)]
      exact Nat.succ_le_succ hzero.le
    · rw [List.countP_cons_of_neg (by simpa using hp)]
      exact ih (hs.step a) hrest

theorem write_once (sha256 : Bytes → Checksum) (cfg : EngineConfig) (before : List Action) :
    (∀ k between, Reply.deleted k ∉ (run sha256 cfg {} before).replies sha256 cfg between →
      ((run sha256 cfg {} before).replies sha256 cfg between).countP (·.Publishes k) ≤ 1) ∧
    (∀ a k b, ((run sha256 cfg {} before).perform sha256 cfg a).2.publication = some (k, b) →
      ∀ between, Reply.deleted k ∉ (run sha256 cfg {} (before ++ [a])).replies sha256 cfg between →
        (run sha256 cfg {} (before ++ a :: between)).read cfg k = .ok b) ∧
    (∀ a x, ((run sha256 cfg {} before).perform sha256 cfg a).2 = .raised x → (∀ id, a ≠ .release id) →
      (run sha256 cfg {} before).step sha256 cfg a = run sha256 cfg {} before) ∧
    ∀ id k uuid between x, (∀ a ∈ between, ¬a.Starts id) →
      ((run sha256 cfg {} (before ++ .start id k uuid :: between)).perform sha256 cfg (.release id)).2 = .raised x →
        Runs.Along (step sha256 cfg) (OwnHarmless sha256 cfg id) (run sha256 cfg {} before)
          (.start id k uuid :: between ++ [.release id]) ∧
        NoTrace sha256 cfg id (run sha256 cfg {} (before ++ .start id k uuid :: between ++ [.release id])) := by
  have hs := sound_run sha256 cfg before
  refine ⟨fun k between hd => publications_le_one hs hd, ?_, ?_, ?_⟩
  · intro a k b hr between hd
    obtain ⟨hk, chunks, rfl, hholds⟩ := holds_of_publication hs.shelved hr
    rw [run, Runs.run_append] at hd ⊢
    exact (hholds.run (hs.step a) hd).read hk
  · intro a x hr ha
    exact (perform_change _ a).raise_unchanged hr ha
  · intro id k uuid between x hbetween hr
    have hsrun := sound_run sha256 cfg (before ++ .start id k uuid :: between)
    rw [run, Runs.run_append] at hr hsrun
    have hfirst := ownHarmless_of_raise hs hbetween hr
    refine ⟨⟨hfirst, along_of_raise (hs.step _) hbetween hr⟩, ?_⟩
    rw [run, Runs.run_append, Runs.run_append]
    exact noTrace_of_raise hsrun hr

end Engine

end Vault.Storage
