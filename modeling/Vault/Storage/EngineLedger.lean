import Vault.Storage.EngineChanges

/-! The books of the engine agree with its writes: the in-flight set holds the keys of the writes that are
under way, and the reserved bytes are the sum of what each of them has received. -/

namespace Vault.Storage

open Vault.Common Vault.Lib

namespace Engine

structure Ledger (cfg : EngineConfig) (e : Engine) : Prop where
  ids : (e.writers.map Writer.id).Nodup
  keys : (e.writers.map Writer.key).Nodup
  inflight : ∀ k, k ∈ e.inflight ↔ ∃ w ∈ e.writers, w.key = k
  reserved : e.reservedBytes = (e.writers.map Writer.reservedBytes).sum
  received : ∀ w ∈ e.writers,
    w.blocks.Regular cfg.chunkSizeBytes ∧ w.reservedBytes = w.blocks.contents.length

variable {sha256 : Bytes → Checksum} {cfg : EngineConfig} {e e' : Engine} {w : Writer}

lemma writer?_mem {id : ℕ} (h : e.writer? id = some w) : w ∈ e.writers := Table.lookup_mem h

lemma Ledger.reserved_split (h : e.Ledger cfg) (hw : w ∈ e.writers) :
    e.reservedBytes = w.reservedBytes + ((Table.remove Writer.id w.id e.writers).map Writer.reservedBytes).sum := by
  rw [h.reserved, ((Table.perm_cons_remove h.ids hw).map Writer.reservedBytes).sum_eq]
  rfl

lemma Ledger.add (h : e.Ledger cfg) {id : ℕ} {k : Key} {staging : String} (hid : e.writer? id = none)
    (hk : k ∉ e.inflight) (hr : e'.reservedBytes = e.reservedBytes) (hi : e'.inflight = k :: e.inflight)
    (hw : e'.writers = e.writers ++ [{ id := id, key := k, staging := staging }]) : e'.Ledger cfg where
  ids := by
    rw [hw]
    exact Table.nodup_append_fresh h.ids (Table.lookup_eq_none.mp hid)
  keys := by
    rw [hw]
    refine Table.nodup_append_fresh h.keys fun w hm he => ?_
    exact hk ((h.inflight k).mpr ⟨w, hm, he⟩)
  inflight := by
    intro k'
    rw [hi, hw]
    simp only [List.mem_cons, h.inflight, List.mem_append, List.not_mem_nil, or_false, or_and_right,
      exists_or, exists_eq_left]
    rw [or_comm, eq_comm]
  reserved := by simp [hr, hw, h.reserved]
  received := by
    intro w hm
    rw [hw] at hm
    rcases List.mem_append.mp hm with hm | hm
    · exact h.received w hm
    · rw [List.mem_singleton.mp hm]
      exact ⟨Blocks.regular_empty cfg.chunkSizeBytes_pos, rfl⟩

lemma Ledger.amend (h : e.Ledger cfg) (hm : w ∈ e.writers) {f : Writer → Writer}
    (hw : e'.writers = Table.amend Writer.id w.id f e.writers) (hid : ∀ w, (f w).id = w.id)
    (hkey : ∀ w, (f w).key = w.key) (hi : e'.inflight = e.inflight)
    (hr : e'.reservedBytes + w.reservedBytes = e.reservedBytes + (f w).reservedBytes)
    (hb : (f w).blocks.Regular cfg.chunkSizeBytes ∧ (f w).reservedBytes = (f w).blocks.contents.length) :
    e'.Ledger cfg where
  ids := by
    rw [hw]
    exact Table.nodup_amend hid h.ids
  keys := by
    rw [hw]
    exact Table.nodup_amend hkey h.keys
  inflight := by
    intro k
    rw [hi, h.inflight, hw]
    constructor
    · rintro ⟨w', hw', rfl⟩
      refine ⟨_, Table.mem_amend.mpr ⟨w', hw', rfl⟩, ?_⟩
      split_ifs <;> simp [hkey]
    · rintro ⟨w', hw', rfl⟩
      obtain ⟨w'', hw'', rfl⟩ := Table.mem_amend.mp hw'
      exact ⟨w'', hw'', by split_ifs <;> simp [hkey]⟩
  reserved := by
    rw [hw, ((Table.amend_perm h.ids hm f).map Writer.reservedBytes).sum_eq]
    have hsplit := h.reserved_split hm
    simp only [List.map_cons, List.sum_cons]
    omega
  received := by
    intro w' hw'
    rw [hw] at hw'
    rcases (Table.mem_amend_iff h.ids hm).mp hw' with rfl | ⟨hw', -⟩
    · exact hb
    · exact h.received w' hw'

lemma Ledger.enter (h : e.Ledger cfg) (hm : w ∈ e.writers) (phase : Phase) (hi : e'.inflight = e.inflight)
    (hw : e'.writers = Table.amend Writer.id w.id (Writer.enter phase) e.writers)
    (hr : e'.reservedBytes = e.reservedBytes) : e'.Ledger cfg :=
  h.amend hm hw (fun _ => rfl) (fun _ => rfl) hi (by rw [hr]; rfl) (h.received w hm)

lemma Ledger.remove (h : e.Ledger cfg) (hm : w ∈ e.writers) (hi : e'.inflight = e.inflight.filter (· ≠ w.key))
    (hw : e'.writers = Table.remove Writer.id w.id e.writers)
    (hr : e'.reservedBytes = e.reservedBytes - w.reservedBytes) : e'.Ledger cfg where
  ids := by
    rw [hw]
    exact Table.nodup_remove h.ids _
  keys := by
    rw [hw]
    exact Table.nodup_remove h.keys _
  inflight := by
    intro k
    rw [hi, hw, List.mem_filter, h.inflight]
    constructor
    · rintro ⟨⟨w', hw', rfl⟩, hne⟩
      refine ⟨w', Table.mem_remove.mpr ⟨hw', fun he => ?_⟩, rfl⟩
      rw [Table.eq_of_key h.ids hw' hm he] at hne
      simp at hne
    · rintro ⟨w', hw', rfl⟩
      obtain ⟨hw', hne⟩ := Table.mem_remove.mp hw'
      refine ⟨⟨w', hw', rfl⟩, ?_⟩
      simp only [ne_eq, decide_not, Bool.not_eq_eq_eq_not, Bool.not_true, decide_eq_false_iff_not]
      exact fun he => hne (congrArg Writer.id (Table.eq_of_key h.keys hw' hm he))
  reserved := by
    rw [hr, hw, h.reserved_split hm, Nat.add_sub_cancel_left]
  received := by
    intro w' hw'
    rw [hw] at hw'
    exact h.received w' (Table.mem_remove.mp hw').1

lemma Ledger.frame (h : e.Ledger cfg) (hr : e'.reservedBytes = e.reservedBytes) (hi : e'.inflight = e.inflight)
    (hw : e'.writers = e.writers) : e'.Ledger cfg where
  ids := hw ▸ h.ids
  keys := hw ▸ h.keys
  inflight := by
    rw [hi, hw]
    exact h.inflight
  reserved := by rw [hr, hw, h.reserved]
  received := hw ▸ h.received

lemma Change.ledger {a : Action} {r : Reply} (hc : Change sha256 cfg e a e' r) (h : e.Ledger cfg) : e'.Ledger cfg := by
  cases hc with
  | idle => exact h
  | raised x => exact h
  | started id k uuid hid ha => exact h.add hid ha.free rfl rfl rfl
  | stored w b hw hp hb hown =>
    have hm := writer?_mem hw
    obtain ⟨hreg, hlen⟩ := h.received w hm
    have hfed : (w.blocks.feed cfg.chunkSizeBytes b).contents.length = w.reservedBytes + b.length := by
      rw [Blocks.contents_feed hreg, List.length_append, hlen]
    have hres : e.reservedBytes + b.length + w.reservedBytes = e.reservedBytes + (w.reservedBytes + b.length) := by
      omega
    exact h.amend hm rfl (fun _ => rfl) (fun _ => rfl) rfl hres ⟨hreg.feed b, hfed.symm⟩
  | failing w x hw hp hown => exact h.enter (writer?_mem hw) _ rfl rfl rfl
  | published w hw hp hfree hown => exact h.enter (writer?_mem hw) _ rfl rfl rfl
  | cleaned w x hw hp hown => exact h.enter (writer?_mem hw) _ rfl rfl rfl
  | accounted w hw hp hown => exact h.remove (writer?_mem hw) rfl rfl rfl
  | released w x hw hp => exact h.remove (writer?_mem hw) rfl rfl rfl
  | wrote k b staging ha hfree hb hown => exact h.frame rfl rfl rfl
  | deleted k f hk hf hm => exact h.frame rfl rfl rfl

lemma ledger_empty (cfg : EngineConfig) : ({} : Engine).Ledger cfg where
  ids := List.nodup_nil
  keys := List.nodup_nil
  inflight := by simp
  reserved := rfl
  received := by simp

/-- The logical use of the disk never exceeds the capacity. -/
lemma Change.capacity {a : Action} {r : Reply} (hc : Change sha256 cfg e a e' r) (h : e.Ledger cfg)
    (hcap : e.usedBytes + e.reservedBytes ≤ cfg.capacityBytes) :
    e'.usedBytes + e'.reservedBytes ≤ cfg.capacityBytes := by
  cases hc with
  | idle => exact hcap
  | raised x => exact hcap
  | started id k uuid hid ha => exact hcap
  | stored w b hw hp hb hown =>
    simp only [storePiece]
    omega
  | failing w x hw hp hown => exact hcap
  | published w hw hp hfree hown => exact hcap
  | cleaned w x hw hp hown => exact hcap
  | accounted w hw hp hown =>
    have hm := writer?_mem hw
    have hsplit := h.reserved_split hm
    have hlen := (h.received w hm).2
    simp only [accountObject, releaseCapacity, discard, removeWriter]
    omega
  | released w x hw hp =>
    simp only [releaseWrite, releaseCapacity, discard, removeWriter]
    omega
  | wrote k b staging ha hfree hb hown =>
    cases b with
    | nil => exact hcap
    | cons a b =>
      have hfits := hb (by simp)
      simp only [addFolder]
      omega
  | deleted k f hk hf hm =>
    simp only [removeTree]
    omega

end Engine

end Vault.Storage
