import Vault.Storage.Accounting

/-! What the steps of one write do to the rest of the engine when no other step comes between them. -/

namespace Vault.Storage

open Vault.Common Vault.Lib

lemma stagingName_ne (versionId uuid : String) : stagingName versionId uuid ≠ versionId := by
  intro h
  have hlength := congrArg (fun s : String => s.toList.length) h
  simp [stagingName] at hlength
  omega

namespace Engine

/-- The engine with one more write in its books. -/
def withRow (w : Writer) (e : Engine) : Engine :=
  { e with
    reservedBytes := e.reservedBytes + w.reservedBytes
    inflight := w.key :: e.inflight
    writers := e.writers ++ [w] }

def withWrite (w : Writer) (d : Dir) (e : Engine) : Engine :=
  (e.withRow w).addFolder ⟨w.key.objectId, w.staging, d⟩

/-- Nothing of the engine is the write's. -/
structure Unrelated (e : Engine) (w : Writer) : Prop where
  id : e.writer? w.id = none
  key : w.key ∉ e.inflight
  staging : e.folder? w.stagingPath = none
  apart : w.stagingPath ≠ w.key.path

variable (sha256 : Bytes → Checksum) (cfg : EngineConfig) {e : Engine} {w : Writer} {d : Dir}

lemma Unrelated.enter (h : e.Unrelated w) (phase : Phase) : e.Unrelated (w.enter phase) :=
  ⟨h.id, h.key, h.staging, h.apart⟩

lemma Unrelated.writer?_withRow (h : e.Unrelated w) : (e.withRow w).writer? w.id = some w :=
  Table.lookup_concat_self h.id

lemma Unrelated.writer?_withWrite (h : e.Unrelated w) : (e.withWrite w d).writer? w.id = some w :=
  Table.lookup_concat_self h.id

lemma Unrelated.amendWriter (h : e.Unrelated w) (phase : Phase) :
    (e.withRow w).amendWriter w.id (Writer.enter phase) = e.withRow (w.enter phase) := by
  have hrest := Table.amend_of_not_mem (f := Writer.enter phase) (Table.lookup_eq_none.mp h.id)
  simp only [Engine.amendWriter, withRow, Table.amend, List.map_append, List.map_singleton] at hrest ⊢
  rw [hrest]
  simp [Writer.enter]

lemma Unrelated.amendWriter_withWrite (h : e.Unrelated w) (phase : Phase) :
    (e.withWrite w d).amendWriter w.id (Writer.enter phase) = e.withWrite (w.enter phase) d :=
  congrArg (Engine.addFolder ⟨w.key.objectId, w.staging, d⟩) (h.amendWriter phase)

lemma Unrelated.storePiece (h : e.Unrelated w) (b : Bytes) :
    Engine.storePiece cfg w b
      { e.withWrite w d with reservedBytes := (e.withWrite w d).reservedBytes + b.length } =
      e.withWrite { w with reservedBytes := w.reservedBytes + b.length, blocks := w.blocks.feed cfg.chunkSizeBytes b }
        (stagingDir (w.blocks.feed cfg.chunkSizeBytes b)) := by
  have hrows := Table.amend_of_not_mem (f := fun w' : Writer => { w' with
    reservedBytes := w'.reservedBytes + b.length, blocks := w.blocks.feed cfg.chunkSizeBytes b })
    (Table.lookup_eq_none.mp h.id)
  have hdisk := Table.amend_of_not_mem
    (f := fun f : Folder => { f with dir := stagingDir (w.blocks.feed cfg.chunkSizeBytes b) })
    (Table.lookup_eq_none.mp h.staging)
  simp only [Table.amend] at hrows hdisk
  simp only [Engine.storePiece, withWrite, withRow, addFolder, Table.amend, List.map_append,
    List.map_singleton, hrows, hdisk]
  simp [Folder.path, Writer.stagingPath, Nat.add_assoc]

lemma Unrelated.removeTree (h : e.Unrelated w) : (e.withWrite w d).removeTree w.stagingPath = e.withRow w := by
  have hdirs := Table.remove_of_not_mem (Table.lookup_eq_none.mp h.staging)
  simp only [Table.remove] at hdirs
  simp only [Engine.removeTree, withWrite, withRow, addFolder, Table.remove, List.filter_append, hdirs]
  simp [Folder.path, Writer.stagingPath]

lemma Unrelated.filter_inflight (h : e.Unrelated w) :
    (w.key :: e.inflight).filter (· ≠ w.key) = e.inflight := by
  rw [List.filter_cons_of_neg (by simp), List.filter_eq_self]
  intro k hk
  have hne : k ≠ w.key := fun he => h.key (he ▸ hk)
  simpa using hne

lemma Unrelated.remove_writers (h : e.Unrelated w) :
    Table.remove Writer.id w.id (e.writers ++ [w]) = e.writers := by
  have hrows := Table.remove_of_not_mem (Table.lookup_eq_none.mp h.id)
  simp only [Table.remove] at hrows
  simp only [Table.remove, List.filter_append, hrows]
  simp

lemma Unrelated.releaseWrite (h : e.Unrelated w) : (e.withRow w).releaseWrite w = e := by
  simp only [Engine.releaseWrite, releaseCapacity, discard, removeWriter, withRow, h.filter_inflight,
    h.remove_writers, Nat.add_sub_cancel]

lemma step_of_writer {a : Action} {id : ℕ} {f : Writer → Engine × Reply} (hw : e.writer? id = some w)
    (ha : e.perform sha256 cfg a = e.advance id f) : e.step sha256 cfg a = (f w).1 := by
  rw [step, ha, advance, hw]

lemma step_of_none {a : Action} {id : ℕ} {f : Writer → Engine × Reply} (hw : e.writer? id = none)
    (ha : e.perform sha256 cfg a = e.advance id f) : e.step sha256 cfg a = e := by
  rw [step, ha, advance, hw]

/-- A write that is cleaned up ends without a trace. -/
lemma Unrelated.run_cleaned (h : e.Unrelated w) {x : EngineError} (hp : w.phase = .cleaned x) :
    run sha256 cfg (e.withRow w) [.account w.id, .cleanup w.id, .release w.id] = e := by
  have haccount := step_of_writer sha256 cfg (a := .account w.id) h.writer?_withRow rfl
  have hcleanup := step_of_writer sha256 cfg (a := .cleanup w.id) h.writer?_withRow rfl
  have hrelease := step_of_writer sha256 cfg (a := .release w.id) h.writer?_withRow rfl
  simp only [hp] at haccount hcleanup hrelease
  simp only [run, Runs.run, List.foldl_cons, List.foldl_nil, haccount, hcleanup, hrelease]
  exact h.releaseWrite

lemma Unrelated.run_failing (h : e.Unrelated w) {x : EngineError} (hp : w.phase = .failing x) :
    run sha256 cfg (e.withWrite w d) [.publish w.id, .account w.id, .cleanup w.id, .release w.id] = e := by
  have hpublish := step_of_writer sha256 cfg (a := .publish w.id) (h.writer?_withWrite (d := d)) rfl
  have haccount := step_of_writer sha256 cfg (a := .account w.id) (h.writer?_withWrite (d := d)) rfl
  have hcleanup := step_of_writer sha256 cfg (a := .cleanup w.id) (h.writer?_withWrite (d := d)) rfl
  simp only [hp, h.removeTree, h.amendWriter] at hpublish haccount hcleanup
  have hrelease := step_of_writer sha256 cfg (a := .release w.id) (h.enter (.cleaned x)).writer?_withRow rfl
  simp only [Writer.enter] at hcleanup hrelease
  simp only [run, Runs.run, List.foldl_cons, List.foldl_nil, hpublish, haccount, hcleanup, hrelease]
  exact (h.enter (.cleaned x)).releaseWrite

lemma Unrelated.run_published (h : e.Unrelated w) (f : Folder) (hp : w.phase = .published) :
    run sha256 cfg ((e.withRow w).addFolder f) [.account w.id, .cleanup w.id, .release w.id] =
      { e.addFolder f with usedBytes := e.usedBytes + w.blocks.contents.length } := by
  have hw : ((e.withRow w).addFolder f).writer? w.id = some w := h.writer?_withRow
  have haccount := step_of_writer sha256 cfg (a := .account w.id) hw rfl
  have hresult : ((e.withRow w).addFolder f).accountObject w =
      { e.addFolder f with usedBytes := e.usedBytes + w.blocks.contents.length } := by
    simp only [accountObject, releaseCapacity, discard, removeWriter, withRow, addFolder, h.filter_inflight,
      h.remove_writers, Nat.add_sub_cancel]
  simp only [hp, hresult] at haccount
  have hgone : ({ e.addFolder f with usedBytes := e.usedBytes + w.blocks.contents.length } : Engine).writer? w.id =
      none := h.id
  have hcleanup := step_of_none sha256 cfg (a := .cleanup w.id) hgone rfl
  have hrelease := step_of_none sha256 cfg (a := .release w.id) hgone rfl
  simp only [run, Runs.run, List.foldl_cons, List.foldl_nil, haccount, hcleanup, hrelease]

lemma Unrelated.run_received (h : e.Unrelated w) (hp : w.phase = .receiving) :
    run sha256 cfg (e.withWrite w d) [.publish w.id, .account w.id, .cleanup w.id, .release w.id] =
      if (e.folder? w.key.path).isSome then e
      else { e.addFolder ⟨w.key.objectId, w.key.versionId, objectDir sha256 cfg w.key w.blocks.finish⟩ with
             usedBytes := e.usedBytes + w.blocks.contents.length } := by
  have hfolder : (e.withWrite w d).folder? w.key.path = e.folder? w.key.path :=
    Table.lookup_concat_of_ne h.apart
  have hpublish := step_of_writer sha256 cfg (a := .publish w.id) (h.writer?_withWrite (d := d)) rfl
  simp only [hp, publishStaging, hfolder, h.removeTree, h.amendWriter] at hpublish
  rw [run, Runs.run_cons, hpublish]
  split_ifs with hf
  · exact (h.enter _).run_cleaned sha256 cfg rfl
  · have hrow := h.amendWriter .published
    refine Eq.trans (congrArg (fun e => run sha256 cfg e _) ?_)
      ((h.enter .published).run_published sha256 cfg _ rfl)
    exact congrArg (Engine.addFolder _) hrow

end Engine

end Vault.Storage
