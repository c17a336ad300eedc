import Vault.Storage.Chunking
import Vault.Storage.WriteOnce

/-! The two writers agree. A call that nothing interrupts is what the steps of the engine do one after
another; where the steps of other calls come between, the directory is still the one that the pieces
determine. -/

namespace Vault.Storage

open Vault.Common Vault.Lib

/-- The pieces of bytes that a write was given. -/
def Action.fed (id : ℕ) : Action → List Bytes
  | .accept i (.bytes b) _ => if i = id then [b] else []
  | _ => []

namespace Engine

variable {sha256 : Bytes → Checksum} {cfg : EngineConfig} {e : Engine} {w : Writer} {d : Dir} {id : ℕ} {k : Key}

def acceptAll (id : ℕ) (turns : List (Bytes × ℕ)) : List Action :=
  turns.map fun t => .accept id (.bytes t.1) t.2

/-- A write that fails accepts nothing more and ends without a trace. -/
lemma Unrelated.run_refused (h : e.Unrelated w) {x : EngineError} (hp : w.phase = .failing x)
    (turns : List (Bytes × ℕ)) :
    run sha256 cfg (e.withWrite w d)
      (acceptAll w.id turns ++ [.publish w.id, .account w.id, .cleanup w.id, .release w.id]) = e := by
  induction turns with
  | nil => exact h.run_failing sha256 cfg hp
  | cons t turns ih =>
    have haccept := step_of_writer sha256 cfg (a := .accept w.id (.bytes t.1) t.2) (h.writer?_withWrite (d := d)) rfl
    simp only [hp] at haccept
    rw [acceptAll, List.map_cons, List.cons_append, run, Runs.run_cons, haccept]
    exact ih

/-- From the first piece on, the steps of a write do what the call does. -/
lemma Unrelated.run_acceptAll (h : e.Unrelated w) (hp : w.phase = .receiving) (turns : List (Bytes × ℕ)) :
    run sha256 cfg (e.withWrite w d)
        (acceptAll w.id turns ++ [.publish w.id, .account w.id, .cleanup w.id, .release w.id]) =
      match Chunking.refusal cfg { e with reservedBytes := e.reservedBytes + w.reservedBytes } turns with
      | some _ => e
      | none =>
        if (e.folder? w.key.path).isSome then e
        else
          { e.addFolder ⟨w.key.objectId, w.key.versionId,
              objectDir sha256 cfg w.key (w.blocks.feedAll cfg.chunkSizeBytes (turns.map Prod.fst)).finish⟩ with
            usedBytes := e.usedBytes + (w.blocks.feedAll cfg.chunkSizeBytes (turns.map Prod.fst)).contents.length } := by
  induction turns generalizing w d with
  | nil => exact h.run_received sha256 cfg hp
  | cons t turns ih =>
    obtain ⟨b, free⟩ := t
    have haccept := step_of_writer sha256 cfg (a := .accept w.id (.bytes b) free) (h.writer?_withWrite (d := d)) rfl
    simp only [hp] at haccept
    rw [acceptAll, List.map_cons, List.cons_append, run, Runs.run_cons, haccept]
    cases b with
    | nil => exact ih h hp
    | cons a b =>
      have hfree : (e.withWrite w d).freeBytes cfg free =
          ({ e with reservedBytes := e.reservedBytes + w.reservedBytes } : Engine).freeBytes cfg free := rfl
      by_cases hlt : ({ e with reservedBytes := e.reservedBytes + w.reservedBytes } : Engine).freeBytes cfg free <
          (a :: b).length
      · simp only [acceptPiece, Chunking.refusal, reserveCapacity, hfree, List.isEmpty_cons, Bool.false_eq_true,
          if_false, if_pos hlt]
        rw [h.amendWriter_withWrite]
        exact (h.enter _).run_refused rfl turns
      · simp only [acceptPiece, Chunking.refusal, reserveCapacity, hfree, List.isEmpty_cons, Bool.false_eq_true,
          if_false, if_neg hlt]
        rw [h.storePiece cfg (a :: b)]
        let v : Writer := { w with
          reservedBytes := w.reservedBytes + (a :: b).length, blocks := w.blocks.feed cfg.chunkSizeBytes (a :: b) }
        have hv : e.Unrelated v := ⟨h.id, h.key, h.staging, h.apart⟩
        have hrest := ih (w := v) (d := stagingDir v.blocks) hv hp
        simp only [v, ← Nat.add_assoc] at hrest
        exact hrest

lemma run_of_absent (hid : e.writer? id = none) (turns : List (Bytes × ℕ)) :
    run sha256 cfg e (acceptAll id turns ++ [.publish id, .account id, .cleanup id, .release id]) = e := by
  induction turns with
  | nil =>
    have hpublish := step_of_none sha256 cfg (a := .publish id) hid rfl
    have haccount := step_of_none sha256 cfg (a := .account id) hid rfl
    have hcleanup := step_of_none sha256 cfg (a := .cleanup id) hid rfl
    have hrelease := step_of_none sha256 cfg (a := .release id) hid rfl
    simp only [acceptAll, List.map_nil, List.nil_append, run, Runs.run, List.foldl_cons, List.foldl_nil, hpublish,
      haccount, hcleanup, hrelease]
  | cons t turns ih =>
    have haccept := step_of_none sha256 cfg (a := .accept id (.bytes t.1) t.2) hid rfl
    rw [acceptAll, List.map_cons, List.cons_append, run, Runs.run_cons, haccept]
    exact ih

lemma run_eq_outcome (hid : e.writer? id = none) (k : Key) (uuid : String) (turns : List (Bytes × ℕ)) :
    run sha256 cfg e (.start id k uuid :: (acceptAll id turns ++
        [.publish id, .account id, .cleanup id, .release id])) =
      (Chunking.outcome sha256 cfg k uuid turns e).1 := by
  rw [run, Runs.run_cons]
  cases hs : e.createStagingDir k uuid with
  | error x =>
    have hstart : e.step sha256 cfg (.start id k uuid) = e := by
      simp only [step, perform, start, hid, hs]
    rw [hstart]
    simp only [Chunking.outcome, hs]
    exact run_of_absent hid turns
  | ok staging =>
    obtain ⟨rfl, ha⟩ := createStagingDir_ok hs
    let w : Writer := { id := id, key := k, staging := stagingName k.versionId uuid }
    have hu : e.Unrelated w := by
      refine ⟨hid, ha.free, ha.unused, fun he => ?_⟩
      exact stagingName_ne k.versionId uuid (congrArg Prod.snd he)
    have hstart : e.step sha256 cfg (.start id k uuid) = e.withWrite w {} := by
      simp only [step, perform, start, hid, hs]
      rfl
    have hcontents := (Blocks.feedAll_spec (Blocks.regular_empty cfg.chunkSizeBytes_pos) (turns.map Prod.fst)).2
    rw [hstart]
    refine (hu.run_acceptAll rfl turns).trans ?_
    simp only [Chunking.outcome, hs, w, Nat.add_zero, Chunking.feedAll_canonical, hcontents]
    cases Chunking.refusal cfg e turns with
    | some x => rfl
    | none =>
      dsimp only
      split_ifs <;> rfl

theorem writeStream_eq_steps (hid : e.writer? id = none) (k : Key) (uuid : String) (turns : List (Bytes × ℕ)) :
    run sha256 cfg e (.start id k uuid :: (acceptAll id turns ++
        [.publish id, .account id, .cleanup id, .release id])) =
      (Chunking.writeStream sha256 cfg k uuid (turns.map Turn.ofBytes) e).1 := by
  rw [Chunking.writeStream_eq_outcome]
  exact run_eq_outcome hid k uuid turns

/-- The step of the engine for `write_bytes` is the call with its loop. -/
theorem writeBytes_eq_call (k : Key) (uuid : String) (b : Bytes) (free : ℕ) (e : Engine) :
    e.writeBytes sha256 cfg k uuid free (.bytes b) =
      ((Chunking.writeBytes sha256 cfg k uuid (.bytes b) free e).1,
        match (Chunking.writeBytes sha256 cfg k uuid (.bytes b) free e).2 with
        | .error x => .raised x
        | .ok _ => .wrote k b) := by
  have hdir : objectDir sha256 cfg k (({} : Blocks UInt8).feedAll cfg.chunkSizeBytes [b]).finish =
      Chunking.canonicalDir sha256 cfg.chunkSizeBytes k [b].flatten := Chunking.feedAll_canonical k [b]
  have hone : ({} : Blocks UInt8).feedAll cfg.chunkSizeBytes [b] = ({} : Blocks UInt8).feed cfg.chunkSizeBytes b := rfl
  simp only [hone, List.flatten_singleton] at hdir
  rw [Chunking.writeBytes_eq_outcome]
  unfold Engine.writeBytes Chunking.outcome
  cases e.createStagingDir k uuid with
  | error x => rfl
  | ok staging =>
    simp only [hdir, List.map_cons, List.map_nil, List.flatten_singleton, Chunking.refusal, reserveCapacity]
    cases b with
    | nil =>
      simp only [List.length_nil, Nat.not_lt_zero, if_false, List.isEmpty_nil, if_true]
      split_ifs <;> rfl
    | cons a b =>
      simp only [List.isEmpty_cons, Bool.false_eq_true, if_false]
      split_ifs <;> rfl

theorem writeBytes_eq_steps (hid : e.writer? id = none) (k : Key) (uuid : String) (b : Bytes) (free : ℕ) :
    run sha256 cfg e [.start id k uuid, .accept id (.bytes b) free, .publish id, .account id, .cleanup id, .release id] =
      (e.writeBytes sha256 cfg k uuid free (.bytes b)).1 := by
  rw [writeBytes_eq_call, Chunking.writeBytes_eq_outcome]
  exact run_eq_outcome hid k uuid [(b, free)]

/-- The write has not gone past the pieces that it was given. -/
def Follows (cfg : EngineConfig) (id : ℕ) (k : Key) (pieces : List Bytes) (e : Engine) : Prop :=
  ∀ w ∈ e.writer? id, (w.key = k ∧ k.Valid) ∧
    (w.phase = .receiving → w.blocks = ({} : Blocks UInt8).feedAll cfg.chunkSizeBytes pieces)

lemma follows_of_none {pieces : List Bytes} (h : e.writer? id = none) : e.Follows cfg id k pieces := by
  intro w hw
  rw [h] at hw
  cases hw

lemma follows_of_phase {pieces : List Bytes} (hw : e.writer? id = some w) (hk : w.key = k ∧ k.Valid)
    (hp : w.phase ≠ .receiving) : e.Follows cfg id k pieces := by
  intro v hv
  obtain rfl : w = v := by simpa [hw] using hv
  exact ⟨hk, fun h => absurd h hp⟩

lemma follows_of_enter {pieces : List Bytes} (hw : e.writer? id = some w) (hk : w.key = k ∧ k.Valid)
    {phase : Phase} (hp : phase ≠ .receiving) {e' : Engine} (he : e'.writers = Table.amend Writer.id id (Writer.enter phase) e.writers) :
    e'.Follows cfg id k pieces := by
  have hrow : e'.writer? id = some (w.enter phase) := by
    rw [writer?, he]
    exact Table.lookup_amend_self (f := Writer.enter phase) (fun _ => rfl) hw
  exact follows_of_phase hrow hk hp

lemma Change.writer?_other {a : Action} {e' : Engine} {r : Reply} (hc : Change sha256 cfg e a e' r)
    (ha : a.writerId ≠ some id) : e'.writer? id = e.writer? id := by
  have hne : ∀ {w : Writer}, a.writerId = some w.id → id ≠ w.id := fun hown he => ha (he ▸ hown)
  have henter : ∀ {w : Writer} (phase : Phase), a.writerId = some w.id →
      (e.amendWriter w.id (Writer.enter phase)).writer? id = e.writer? id := fun phase hown =>
    Table.lookup_amend_ne (f := Writer.enter phase) (fun _ => rfl) _ (hne hown)
  cases hc with
  | idle | raised | wrote | deleted => rfl
  | started id' k' uuid hid ha' =>
    exact Table.lookup_concat_of_ne fun he => ha (congrArg some he)
  | stored w b hw hp hb hown =>
    exact Table.lookup_amend_ne (f := fun v : Writer => { v with
      reservedBytes := v.reservedBytes + b.length, blocks := w.blocks.feed cfg.chunkSizeBytes b })
      (fun _ => rfl) _ (hne hown)
  | failing w x hw hp hown => exact henter _ hown
  | published w hw hp hfree hown => exact henter _ hown
  | cleaned w x hw hp hown => exact henter _ hown
  | accounted w hw hp hown => exact Table.lookup_remove_ne (hne hown) _
  | released w x hw hp => exact Table.lookup_remove_ne (hne rfl) _

lemma Follows.accept {pieces : List Bytes} (h : e.Follows cfg id k pieces) (piece : Piece) (free : ℕ) :
    (e.step sha256 cfg (.accept id piece free)).Follows cfg id k (pieces ++ (Action.accept id piece free).fed id) := by
  cases hw : e.writer? id with
  | none =>
    rw [step_of_none sha256 cfg (a := .accept id piece free) hw rfl]
    exact follows_of_none hw
  | some w =>
    obtain ⟨hk, hblocks⟩ := h w hw
    obtain rfl := writer?_id hw
    rw [step_of_writer sha256 cfg (a := .accept w.id piece free) hw rfl]
    cases hp : w.phase with
    | published | failing | cleaned => exact follows_of_phase hw hk (by simp [hp])
    | receiving =>
      cases piece with
      | other => exact follows_of_enter hw hk (by simp) rfl
      | bytes b =>
        have hfed : (Action.accept w.id (.bytes b) free).fed w.id = [b] := by simp [Action.fed]
        have hall : ({} : Blocks UInt8).feedAll cfg.chunkSizeBytes (pieces ++ [b]) =
            w.blocks.feed cfg.chunkSizeBytes b := by
          rw [hblocks hp]
          exact List.foldl_append
        rw [hfed]
        cases b with
        | nil =>
          intro v hv
          obtain rfl : w = v := by simpa [acceptPiece, hw] using hv
          exact ⟨hk, fun _ => hall.symm⟩
        | cons a b =>
          simp only [acceptPiece]
          cases hr : e.reserveCapacity cfg free (a :: b).length with
          | error x => exact follows_of_enter hw hk (by simp) rfl
          | ok e' =>
            intro v hv
            have hrows : e'.writer? w.id = e.writer? w.id := by
              unfold reserveCapacity at hr
              split_ifs at hr
              cases hr
              rfl
            have hrow : (e'.storePiece cfg w (a :: b)).writer? w.id = some { w with
                reservedBytes := w.reservedBytes + (a :: b).length
                blocks := w.blocks.feed cfg.chunkSizeBytes (a :: b) } := by
              rw [← hrows] at hw
              exact Table.lookup_amend_self (f := fun v : Writer => { v with
                reservedBytes := v.reservedBytes + (a :: b).length
                blocks := w.blocks.feed cfg.chunkSizeBytes (a :: b) }) (fun _ => rfl) hw
            rw [hrow] at hv
            cases hv
            exact ⟨hk, fun _ => hall.symm⟩

/-- Any other step of the write leaves it where it is, ends it, or takes it out of the loop. -/
lemma Follows.leave {pieces : List Bytes} (h : e.Follows cfg id k pieces) {a : Action} {f : Writer → Engine × Reply}
    (ha : e.perform sha256 cfg a = e.advance id f)
    (hf : ∀ w, e.writer? id = some w → (f w).1 = e ∨ (f w).1.writers = Table.remove Writer.id id e.writers ∨
      ∃ phase ≠ Phase.receiving, (f w).1.writers = Table.amend Writer.id id (Writer.enter phase) e.writers) :
    (e.step sha256 cfg a).Follows cfg id k pieces := by
  cases hw : e.writer? id with
  | none =>
    rw [step_of_none sha256 cfg hw ha]
    exact h
  | some w =>
    rw [step_of_writer sha256 cfg hw ha]
    rcases hf w hw with hsame | hgone | ⟨phase, hp, hrows⟩
    · rw [hsame]
      exact h
    · refine follows_of_none (Table.lookup_eq_none.mpr fun v hv => ?_)
      rw [hgone] at hv
      exact (Table.mem_remove.mp hv).2
    · exact follows_of_enter hw (h w hw).1 hp hrows

lemma Follows.step {pieces : List Bytes} (h : e.Follows cfg id k pieces) {a : Action}
    (ha : ∀ k' uuid, a ≠ .start id k' uuid) :
    (e.step sha256 cfg a).Follows cfg id k (pieces ++ a.fed id) := by
  by_cases hown : a.writerId = some id
  · cases a with
    | start i k' uuid =>
      cases hown
      exact absurd rfl (ha k' uuid)
    | accept i piece free =>
      cases hown
      exact h.accept piece free
    | interrupt i x =>
      cases hown
      refine (List.append_nil pieces).symm ▸ h.leave (a := .interrupt id x) rfl fun w hw => ?_
      obtain rfl := writer?_id hw
      cases hp : w.phase with
      | receiving => exact Or.inr (Or.inr ⟨.failing x, by simp, rfl⟩)
      | _ => exact Or.inl rfl
    | publish i =>
      cases hown
      refine (List.append_nil pieces).symm ▸ h.leave (a := .publish id) rfl fun w hw => ?_
      obtain rfl := writer?_id hw
      cases hp : w.phase with
      | receiving =>
        dsimp only [publishStaging]
        split_ifs
        · exact Or.inr (Or.inr ⟨.cleaned (alreadyExists w.key), by simp, rfl⟩)
        · exact Or.inr (Or.inr ⟨.published, by simp, rfl⟩)
      | _ => exact Or.inl rfl
    | account i =>
      cases hown
      refine (List.append_nil pieces).symm ▸ h.leave (a := .account id) rfl fun w hw => ?_
      obtain rfl := writer?_id hw
      cases hp : w.phase with
      | published => exact Or.inr (Or.inl rfl)
      | _ => exact Or.inl rfl
    | cleanup i =>
      cases hown
      refine (List.append_nil pieces).symm ▸ h.leave (a := .cleanup id) rfl fun w hw => ?_
      obtain rfl := writer?_id hw
      cases hp : w.phase with
      | failing x => exact Or.inr (Or.inr ⟨.cleaned x, by simp, rfl⟩)
      | _ => exact Or.inl rfl
    | release i =>
      cases hown
      refine (List.append_nil pieces).symm ▸ h.leave (a := .release id) rfl fun w hw => ?_
      obtain rfl := writer?_id hw
      cases hp : w.phase with
      | cleaned x => exact Or.inr (Or.inl rfl)
      | _ => exact Or.inl rfl
    | writeBytes | delete => cases hown
  · have hfed : a.fed id = [] := by
      cases a with
      | accept i piece free =>
        cases piece with
        | other => rfl
        | bytes b => exact if_neg fun he => hown (congrArg some he)
      | _ => rfl
    rw [hfed, List.append_nil]
    intro w hw
    rw [Engine.step, (perform_change e a).writer?_other hown] at hw
    exact h w hw

lemma Follows.run {pieces : List Bytes} {actions : List Action} (h : e.Follows cfg id k pieces)
    (ha : ∀ a ∈ actions, ∀ k' uuid, a ≠ .start id k' uuid) :
    (Engine.run sha256 cfg e actions).Follows cfg id k (pieces ++ actions.flatMap (Action.fed id)) := by
  induction actions generalizing e pieces with
  | nil => exact (List.append_nil pieces).symm ▸ h
  | cons a actions ih =>
    have hfirst : (e.step sha256 cfg a).Follows cfg id k (pieces ++ a.fed id) := h.step (ha a List.mem_cons_self)
    have hrest := ih hfirst fun a' ha' => ha a' (List.mem_cons_of_mem _ ha')
    rw [List.flatMap_cons, ← List.append_assoc]
    exact hrest

lemma follows_start (hid : e.writer? id = none) (k : Key) (uuid : String) :
    (e.step sha256 cfg (.start id k uuid)).Follows cfg id k [] := by
  cases hs : e.createStagingDir k uuid with
  | error x =>
    have hstart : e.step sha256 cfg (.start id k uuid) = e := by simp only [step, perform, start, hid, hs]
    rw [hstart]
    exact follows_of_none hid
  | ok staging =>
    intro w hw
    let row : Writer := { id := id, key := k, staging := staging }
    have hrow : (e.step sha256 cfg (.start id k uuid)).writer? row.id = some row := by
      simp only [step, perform, start, hid, hs]
      exact Table.lookup_concat_self (r := row) hid
    obtain rfl : row = w := Option.some.inj (hrow.symm.trans hw)
    exact ⟨⟨rfl, (createStagingDir_ok hs).2.valid⟩, fun _ => rfl⟩

lemma Follows.publish {pieces : List Bytes} (h : e.Follows cfg id k pieces) {k' : Key} {b : Bytes}
    (hr : (e.perform sha256 cfg (.publish id)).2 = .published k' b) :
    k.Valid ∧ (e.step sha256 cfg (.publish id)).folder? k.path =
      some ⟨k.objectId, k.versionId, Chunking.canonicalDir sha256 cfg.chunkSizeBytes k pieces.flatten⟩ := by
  cases hw : e.writer? id with
  | none => simp [perform, advance, hw] at hr
  | some w =>
    obtain ⟨⟨rfl, hk⟩, hblocks⟩ := h w hw
    obtain rfl := writer?_id hw
    refine ⟨hk, ?_⟩
    rw [step_of_writer sha256 cfg (a := .publish w.id) hw rfl]
    cases hp : w.phase with
    | published | failing | cleaned => simp [perform, advance, hw, hp] at hr
    | receiving =>
      simp only [perform, advance, hw, hp, publishStaging] at hr ⊢
      split_ifs at hr ⊢ with hf
      rw [← Chunking.feedAll_canonical, ← hblocks hp]
      let g : Folder := ⟨w.key.objectId, w.key.versionId, objectDir sha256 cfg w.key w.blocks.finish⟩
      exact folder?_addFolder (f := g) (folder?_removeTree (Option.not_isSome_iff_eq_none.mp hf))

end Engine

namespace Chunking

/-- For a list of pieces the two writers store the same directory, also when the steps of other calls come
between those of `write_stream`; where the capacity is the only limit, both run out of it or neither. -/
theorem writers_agree (sha256 : Bytes → Checksum) (k : Key) (turns : List (Bytes × ℕ)) (free : ℕ) :
    let d := (turns.map Prod.fst).flatten
    (∀ (cfg cfg' : EngineConfig) (e e' : Engine) (uuid uuid' : String) (size size' : ℕ),
      cfg.chunkSizeBytes = cfg'.chunkSizeBytes →
      (writeStream sha256 cfg k uuid (turns.map Turn.ofBytes) e).2 = .ok size →
      (writeBytes sha256 cfg' k uuid' (.bytes d) free e').2 = .ok size' →
      (writeStream sha256 cfg k uuid (turns.map Turn.ofBytes) e).1.folder? k.path =
          some ⟨k.objectId, k.versionId, canonicalDir sha256 cfg.chunkSizeBytes k d⟩ ∧
        (writeBytes sha256 cfg' k uuid' (.bytes d) free e').1.folder? k.path =
          some ⟨k.objectId, k.versionId, canonicalDir sha256 cfg.chunkSizeBytes k d⟩) ∧
    (∀ (cfg : EngineConfig) (e : Engine) (id : ℕ) (uuid : String) (actions : List Action) (k' : Key) (b : Bytes),
      e.writer? id = none → (∀ a ∈ actions, ∀ k' uuid', a ≠ .start id k' uuid') →
      actions.flatMap (Action.fed id) = turns.map Prod.fst →
      ((Engine.run sha256 cfg e (.start id k uuid :: actions)).perform sha256 cfg (.publish id)).2 = .published k' b →
      ((Engine.run sha256 cfg e (.start id k uuid :: actions)).step sha256 cfg (.publish id)).folder? k.path =
        some ⟨k.objectId, k.versionId, canonicalDir sha256 cfg.chunkSizeBytes k d⟩) ∧
    (∀ (cfg : EngineConfig) (e : Engine) (uuid uuid' : String),
      e.folder? (k.objectId, stagingName k.versionId uuid) = none →
      e.folder? (k.objectId, stagingName k.versionId uuid') = none →
      (∀ t ∈ turns, cfg.capacityBytes ≤ t.2) → cfg.capacityBytes ≤ free →
      (OutOfSpace (writeStream sha256 cfg k uuid (turns.map Turn.ofBytes) e) ↔
        OutOfSpace (writeBytes sha256 cfg k uuid' (.bytes d) free e))) := by
  intro d
  refine ⟨?_, ?_, ?_⟩
  · intro cfg cfg' e e' uuid uuid' size size' hc hs hb
    rw [writeStream_eq_outcome] at hs ⊢
    rw [writeBytes_eq_outcome] at hb ⊢
    refine ⟨(outcome_ok (Prod.ext rfl hs)).2, ?_⟩
    have hstored := (outcome_ok (Prod.ext rfl hb)).2
    rw [← hc, List.map_singleton, List.flatten_singleton] at hstored
    exact hstored
  · intro cfg e id uuid actions k' b hid ha hfed hr
    have hstart : (e.step sha256 cfg (.start id k uuid)).Follows cfg id k [] := Engine.follows_start hid k uuid
    have hfollows : (Engine.run sha256 cfg _ actions).Follows cfg id k _ := hstart.run ha
    rw [List.nil_append, hfed] at hfollows
    exact (hfollows.publish hr).2
  · intro cfg e uuid uuid' hu hu' hturns hfree
    have hone : ∀ t ∈ [(d, free)], cfg.capacityBytes ≤ t.2 := by simpa using hfree
    rw [writeStream_eq_outcome, writeBytes_eq_outcome, outOfSpace_outcome_iff hu hturns,
      outOfSpace_outcome_iff hu' hone, List.map_singleton, List.flatten_singleton]

theorem writers_agree_on_three_bytes :
    let turns : List (Bytes × ℕ) := [([1], 99), ([], 99), ([2, 3], 99)]
    let others : List Action := [.accept 0 (.bytes [1]) 99, .writeBytes ⟨"other", "v1"⟩ (.bytes [7]) "c" 99,
      .accept 0 (.bytes []) 99, .accept 0 (.bytes [2, 3]) 99]
    let stored := some (⟨"report", "v1", canonicalDir plainHash 2 reportKey [1, 2, 3]⟩ : Folder)
    ((writeStream plainHash smallEngine reportKey "a" (turns.map Turn.ofBytes) {}).1.folder? reportKey.path = stored ∧
      (writeBytes plainHash smallEngine reportKey "b" (.bytes [1, 2, 3]) 99 {}).1.folder? reportKey.path = stored) ∧
    ((Engine.run plainHash smallEngine {} (.start 0 reportKey "a" :: others)).step plainHash smallEngine
      (.publish 0)).folder? reportKey.path = stored ∧
    (OutOfSpace (writeStream plainHash smallEngine reportKey "a" (turns.map Turn.ofBytes) { usedBytes := 8 }) ↔
      OutOfSpace (writeBytes plainHash smallEngine reportKey "b" (.bytes [1, 2, 3]) 99 { usedBytes := 8 })) ∧
    OutOfSpace (writeBytes plainHash smallEngine reportKey "b" (.bytes [1, 2, 3]) 99 { usedBytes := 8 }) := by
  intro turns others stored
  obtain ⟨hsame, hbetween, hfull⟩ := writers_agree plainHash reportKey turns 99
  refine ⟨?_, ?_, ?_, by decide +kernel⟩
  · exact hsame smallEngine smallEngine {} {} "a" "b" 3 3 rfl (by decide +kernel) (by decide +kernel)
  · refine hbetween smallEngine {} 0 "a" others reportKey [1, 2, 3] rfl ?_ rfl (by decide +kernel)
    simp [others]
  · exact hfull smallEngine { usedBytes := 8 } "a" "b" rfl rfl (by decide) (by decide)

end Chunking

end Vault.Storage
