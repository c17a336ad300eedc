import Vault.Storage.Accounting

/-! A `write_stream` call that ends with an exception. Each of its steps leaves the objects, the used bytes
and what belongs to the other writes alone; when the exception reaches the caller, nothing on disk or in the
books is its own. -/

namespace Vault.Storage

open Vault.Common Vault.Lib

def Action.Starts (id : ℕ) : Action → Prop
  | .start i _ _ => i = id
  | _ => False

namespace Engine

/-- The bytes that the write holds reserved. -/
def ownBytes (id : ℕ) (e : Engine) : ℕ := (e.writer? id).elim 0 Writer.reservedBytes

/-- A step of the write from the first state to the second changes nothing but what is its own. -/
structure Harmless (id : ℕ) (e e' : Engine) : Prop where
  used : e'.usedBytes = e.usedBytes
  objects : ∀ f, f.dir.metadata.isFile = true → (f ∈ e'.disk ↔ f ∈ e.disk)
  writers : ∀ w, w.id ≠ id → (w ∈ e'.writers ↔ w ∈ e.writers)
  stagings : ∀ w ∈ e.writers, w.id ≠ id → w.Staged → e'.folder? w.stagingPath = e.folder? w.stagingPath
  inflight : ∀ k, (∀ w ∈ e.writers ++ e'.writers, w.id = id → w.key ≠ k) → (k ∈ e'.inflight ↔ k ∈ e.inflight)
  reserved : e'.reservedBytes + e.ownBytes id = e.reservedBytes + e'.ownBytes id

/-- Nothing on disk or in the books belongs to the write. -/
structure NoTrace (sha256 : Bytes → Checksum) (cfg : EngineConfig) (id : ℕ) (e : Engine) : Prop where
  gone : e.writer? id = none
  inflight : ∀ k ∈ e.inflight, ∃ w ∈ e.writers, w.id ≠ id ∧ w.key = k
  reserved : e.reservedBytes = (e.writers.map Writer.reservedBytes).sum
  folders : ∀ f ∈ e.disk,
    (∃ w ∈ e.writers, w.id ≠ id ∧ w.Staged ∧ w.stagingPath = f.path) ∨ f.Published sha256 cfg

/-- The write has published its object or has ended. -/
def Done (id : ℕ) (e : Engine) : Prop := ∀ w, e.writer? id = some w → w.phase = .published

variable {sha256 : Bytes → Checksum} {cfg : EngineConfig} {e e' : Engine} {a : Action} {r : Reply} {w : Writer}
  {id : ℕ}

lemma Shelved.mem_amend_staging (h : e.Shelved sha256 cfg) (hm : w ∈ e.writers) (hs : w.Staged)
    {g : Folder → Folder} (hg : ∀ x, x.dir.metadata = .absent → (g x).dir.metadata = .absent) {f : Folder}
    (hf : f.dir.metadata.isFile = true) :
    f ∈ Table.amend Folder.path w.stagingPath g e.disk ↔ f ∈ e.disk := by
  obtain ⟨s, hmem, hp, habsent⟩ := h.staged w hm hs
  rw [← hp, Table.mem_amend_iff h.paths hmem]
  constructor
  · rintro (rfl | ⟨hd, -⟩)
    · rw [hg s habsent] at hf
      cases hf
    · exact hd
  · intro hd
    refine Or.inr ⟨hd, ?_⟩
    rw [hp]
    exact h.path_ne hm hs hd hf

lemma Shelved.mem_remove_staging (h : e.Shelved sha256 cfg) (hm : w ∈ e.writers) (hs : w.Staged) {f : Folder}
    (hf : f.dir.metadata.isFile = true) : f ∈ Table.remove Folder.path w.stagingPath e.disk ↔ f ∈ e.disk := by
  rw [Table.mem_remove]
  exact ⟨fun hd => hd.1, fun hd => ⟨hd, h.path_ne hm hs hd hf⟩⟩

lemma Shelved.stagingPath_ne (h : e.Shelved sha256 cfg) {w' : Writer} (hm : w ∈ e.writers) (hs : w.Staged)
    (hm' : w' ∈ e.writers) (hs' : w'.Staged) (hne : w'.id ≠ w.id) : w'.stagingPath ≠ w.stagingPath :=
  fun he => hne (h.apart w' hm' w hm hs' hs he)

lemma Ledger.mem_amend_other (h : e.Ledger cfg) (hm : w ∈ e.writers) {f : Writer → Writer}
    (hid : (f w).id = w.id) {v : Writer} (hv : v.id ≠ w.id) :
    v ∈ Table.amend Writer.id w.id f e.writers ↔ v ∈ e.writers := by
  rw [Table.mem_amend_iff h.ids hm]
  constructor
  · rintro (rfl | ⟨hd, -⟩)
    · exact absurd hid hv
    · exact hd
  · exact fun hd => Or.inr ⟨hd, hv⟩

/-- The in-flight set follows the rows of the writes. -/
lemma Ledger.inflight_iff (h : e.Ledger cfg) (h' : e'.Ledger cfg)
    (hw : ∀ w, w.id ≠ id → (w ∈ e'.writers ↔ w ∈ e.writers)) {k : Key}
    (hk : ∀ w ∈ e.writers ++ e'.writers, w.id = id → w.key ≠ k) : k ∈ e'.inflight ↔ k ∈ e.inflight := by
  rw [h.inflight, h'.inflight]
  constructor
  · rintro ⟨w, hm, rfl⟩
    have hne : w.id ≠ id := fun he => hk w (List.mem_append_right _ hm) he rfl
    exact ⟨w, (hw w hne).mp hm, rfl⟩
  · rintro ⟨w, hm, rfl⟩
    have hne : w.id ≠ id := fun he => hk w (List.mem_append_left _ hm) he rfl
    exact ⟨w, (hw w hne).mpr hm, rfl⟩

lemma Harmless.refl (id : ℕ) (e : Engine) : Harmless id e e :=
  ⟨rfl, fun _ _ => Iff.rfl, fun _ _ => Iff.rfl, fun _ _ _ _ => rfl, fun _ _ => Iff.rfl, rfl⟩

lemma ownBytes_amend {f : Writer → Writer} (hid : ∀ w, (f w).id = w.id) (hw : e.writer? w.id = some w)
    (hd : e'.writers = Table.amend Writer.id w.id f e.writers) : e'.ownBytes w.id = (f w).reservedBytes := by
  have hlookup : e'.writer? w.id = some (f w) := by
    rw [writer?, hd]
    exact Table.lookup_amend_self hid hw
  rw [ownBytes, hlookup]
  rfl

lemma ownBytes_eq (hw : e.writer? w.id = some w) : e.ownBytes w.id = w.reservedBytes := by
  rw [ownBytes, hw]
  rfl

/-- A staged write goes on: at most the content of its staging directory and its own reservation change. -/
lemma harmless_amend (hl : e.Ledger cfg) (hl' : e'.Ledger cfg) (hs : e.Shelved sha256 cfg)
    (hw : e.writer? w.id = some w) (hst : w.Staged) {f : Writer → Writer}
    (hwriters : e'.writers = Table.amend Writer.id w.id f e.writers) (hid : ∀ w, (f w).id = w.id)
    (hused : e'.usedBytes = e.usedBytes)
    (hobjects : ∀ f, f.dir.metadata.isFile = true → (f ∈ e'.disk ↔ f ∈ e.disk))
    (hstagings : ∀ path, path ≠ w.stagingPath → e'.folder? path = e.folder? path)
    (hreserved : e'.reservedBytes + w.reservedBytes = e.reservedBytes + (f w).reservedBytes) :
    Harmless w.id e e' := by
  have hm := writer?_mem hw
  have hothers : ∀ v, v.id ≠ w.id → (v ∈ e'.writers ↔ v ∈ e.writers) := by
    intro v hv
    rw [hwriters]
    exact hl.mem_amend_other hm (hid w) hv
  refine ⟨hused, hobjects, hothers, ?_, fun k hk => hl.inflight_iff hl' hothers hk, ?_⟩
  · intro v hv hne hvs
    exact hstagings _ (hs.stagingPath_ne hm hst hv hvs hne)
  · rw [ownBytes_eq hw, ownBytes_amend hid hw hwriters]
    exact hreserved

lemma harmless_start (hl : e.Ledger cfg) (hl' : e'.Ledger cfg) (hs : e.Shelved sha256 cfg) {k : Key}
    {staging : String} (hid : e.writer? id = none)
    (hd : e'.disk = e.disk ++ [⟨k.objectId, staging, {}⟩])
    (hw : e'.writers = e.writers ++ [{ id := id, key := k, staging := staging }])
    (hused : e'.usedBytes = e.usedBytes) (hreserved : e'.reservedBytes = e.reservedBytes) :
    Harmless id e e' := by
  have hothers : ∀ v, v.id ≠ id → (v ∈ e'.writers ↔ v ∈ e.writers) := by
    intro v hv
    rw [hw, List.mem_append, List.mem_singleton]
    refine or_iff_left ?_
    rintro rfl
    exact hv rfl
  refine ⟨hused, ?_, hothers, ?_, fun k hk => hl.inflight_iff hl' hothers hk, ?_⟩
  · intro f hf
    rw [hd, List.mem_append, List.mem_singleton]
    refine or_iff_left ?_
    rintro rfl
    cases hf
  · intro v hv _ hvs
    obtain ⟨f, hf, hp, -⟩ := hs.staged v hv hvs
    have hlookup : e.folder? v.stagingPath = some f := (Table.lookup_iff hs.paths).mpr ⟨hf, hp⟩
    rw [hlookup, folder?, hd]
    exact Table.lookup_append_of_some hlookup _
  · have hlookup : e'.writer? id = some { id := id, key := k, staging := staging } := by
      rw [writer?, hw, Table.lookup_append, show Table.lookup Writer.id id e.writers = none from hid]
      simp [Table.lookup]
    rw [ownBytes, ownBytes, hid, hlookup, hreserved]
    rfl

lemma harmless_release (hl : e.Ledger cfg) (hl' : (e.releaseWrite w).Ledger cfg) (hw : e.writer? w.id = some w) :
    Harmless w.id e (e.releaseWrite w) := by
  have hm := writer?_mem hw
  have hothers : ∀ v, v.id ≠ w.id → (v ∈ (e.releaseWrite w).writers ↔ v ∈ e.writers) := by
    intro v hv
    change v ∈ Table.remove Writer.id w.id e.writers ↔ _
    rw [Table.mem_remove]
    exact and_iff_left hv
  refine ⟨rfl, fun _ _ => Iff.rfl, hothers, fun _ _ _ _ => rfl, fun k hk => hl.inflight_iff hl' hothers hk, ?_⟩
  have hgone : (e.releaseWrite w).ownBytes w.id = 0 := by
    have hlookup : (e.releaseWrite w).writer? w.id = none :=
      Table.lookup_eq_none.mpr fun v hv => (Table.mem_remove.mp hv).2
    rw [ownBytes, hlookup]
    rfl
  have hsplit := hl.reserved_split hm
  rw [hgone, ownBytes_eq hw]
  change e.reservedBytes - w.reservedBytes + w.reservedBytes = _
  omega

lemma done_of_none (h : e.writer? id = none) : e.Done id := by
  intro w hw
  rw [h] at hw
  cases hw

lemma writer?_remove (hd : e'.writers = Table.remove Writer.id w.id e.writers) : e'.writer? w.id = none := by
  rw [writer?, hd]
  exact Table.lookup_eq_none.mpr fun v hv => (Table.mem_remove.mp hv).2

/-- A step of the write is harmless, or from then on it cannot raise. -/
lemma Change.own (hc : Change sha256 cfg e a e' r) (hl : e.Ledger cfg) (hs : e.Shelved sha256 cfg)
    (ha : a.writerId = some id) : Harmless id e e' ∨ e'.Done id ∧ ∀ x, r ≠ .raised x := by
  have hl' := hc.ledger hl
  have hsame : ∀ {w : Writer}, a.writerId = some w.id → w.id = id := by
    intro w hw
    exact Option.some.inj (hw.symm.trans ha)
  cases hc with
  | idle | raised => exact Or.inl (Harmless.refl id _)
  | started i k uuid hid hadmits =>
    cases ha
    exact Or.inl (harmless_start hl hl' hs hid rfl rfl rfl rfl)
  | stored w b hw hp hb hown =>
    obtain rfl := hsame hown
    refine Or.inl (harmless_amend hl hl' hs hw (Or.inl hp) rfl (fun _ => rfl) rfl ?_ ?_ ?_)
    · intro f hf
      exact hs.mem_amend_staging (writer?_mem hw) (Or.inl hp) (fun _ _ => rfl) hf
    · intro path hne
      refine Table.lookup_amend_ne ?_ e.disk hne
      intro f
      rfl
    · change e.reservedBytes + b.length + w.reservedBytes = e.reservedBytes + (w.reservedBytes + b.length)
      omega
  | failing w x hw hp hown =>
    obtain rfl := hsame hown
    exact Or.inl (harmless_amend hl hl' hs hw (Or.inl hp) rfl (fun _ => rfl) rfl (fun _ _ => Iff.rfl)
      (fun _ _ => rfl) rfl)
  | cleaned w x hw hp hown =>
    obtain rfl := hsame hown
    have hst : w.Staged := hp.imp_right fun hp => ⟨x, hp⟩
    refine Or.inl (harmless_amend hl hl' hs hw hst rfl (fun _ => rfl) rfl ?_ ?_ rfl)
    · intro f hf
      exact hs.mem_remove_staging (writer?_mem hw) hst hf
    · exact fun path hne => Table.lookup_remove_ne hne _
  | published w hw hp hfree hown =>
    obtain rfl := hsame hown
    refine Or.inr ⟨?_, fun x hr => by cases hr⟩
    intro v hv
    have hlookup := Table.lookup_amend_self (f := Writer.enter .published) (fun _ => rfl) hw
    cases hlookup.symm.trans hv
    rfl
  | accounted w hw hp hown =>
    obtain rfl := hsame hown
    exact Or.inr ⟨done_of_none (writer?_remove rfl), fun x hr => by cases hr⟩
  | released w x hw hp =>
    cases ha
    exact Or.inl (harmless_release hl hl' hw)
  | wrote k b staging hadmits hfree hb hown => cases hown.symm.trans ha
  | deleted k f hk hf hm => cases ha

lemma Done.amend (h : e.Done id) (hw : e.writer? w.id = some w) (hp : w.phase ≠ .published) {f : Writer → Writer}
    (hd : e'.writers = Table.amend Writer.id w.id f e.writers) (hid : ∀ w, (f w).id = w.id) : e'.Done id := by
  have hne : id ≠ w.id := by
    rintro rfl
    exact hp (h w hw)
  intro v hv
  rw [writer?, hd, Table.lookup_amend_ne hid _ hne] at hv
  exact h v hv

lemma Done.remove (h : e.Done id) (hd : e'.writers = Table.remove Writer.id w.id e.writers) : e'.Done id := by
  by_cases hne : id = w.id
  · subst hne
    exact done_of_none (writer?_remove hd)
  · intro v hv
    rw [writer?, hd, Table.lookup_remove_ne hne] at hv
    exact h v hv

lemma Change.done (hc : Change sha256 cfg e a e' r) (ha : ¬a.Starts id) (h : e.Done id) : e'.Done id := by
  cases hc with
  | idle | raised | wrote | deleted => exact h
  | started i k uuid hid hadmits =>
    intro v hv
    have hne : i ≠ id := ha
    exact h v ((Table.lookup_concat_of_ne hne).symm.trans hv)
  | stored w b hw hp hb hown => exact h.amend hw (by simp [hp]) rfl fun _ => rfl
  | failing w x hw hp hown => exact h.amend hw (by simp [hp]) rfl fun _ => rfl
  | published w hw hp hfree hown => exact h.amend hw (by simp [hp]) rfl fun _ => rfl
  | cleaned w x hw hp hown =>
    refine h.amend hw ?_ rfl fun _ => rfl
    rcases hp with hp | hp <;> simp [hp]
  | accounted w hw hp hown => exact h.remove rfl
  | released w x hw hp => exact h.remove rfl

lemma Done.run {actions : List Action} (h : e.Done id) (ha : ∀ a ∈ actions, ¬a.Starts id) :
    (e.run sha256 cfg actions).Done id := by
  induction actions generalizing e with
  | nil => exact h
  | cons a actions ih =>
    have hstep : (e.step sha256 cfg a).Done id := (perform_change e a).done (ha a List.mem_cons_self) h
    exact ih hstep fun b hb => ha b (List.mem_cons_of_mem _ hb)

/-- Only a call whose clean-up is over raises from its last step. -/
lemma release_raised {x : EngineError} (h : (e.perform sha256 cfg (.release id)).2 = .raised x) :
    ∃ w, e.writer? id = some w ∧ w.phase = .cleaned x ∧ e.step sha256 cfg (.release id) = e.releaseWrite w := by
  unfold step
  simp only [perform, advance] at h ⊢
  cases hw : e.writer? id with
  | none =>
    rw [hw] at h
    cases h
  | some w =>
    rw [hw] at h
    dsimp only at h ⊢
    cases hp : w.phase with
    | cleaned y =>
      rw [hp] at h
      cases h
      exact ⟨w, rfl, hp, rfl⟩
    | receiving | published | failing =>
      rw [hp] at h
      cases h

lemma Done.not_raised (h : e.Done id) (x : EngineError) : (e.perform sha256 cfg (.release id)).2 ≠ .raised x := by
  intro hr
  obtain ⟨w, hw, hp, -⟩ := release_raised hr
  rw [h w hw] at hp
  cases hp

variable (sha256 cfg) in
/-- What is asked of each step of the run that belongs to the write. -/
def OwnHarmless (id : ℕ) (e : Engine) (a : Action) : Prop :=
  a.writerId = some id → Harmless id e (e.step sha256 cfg a)

lemma ownHarmless_of_raise {actions : List Action} {x : EngineError} (hs : e.Sound sha256 cfg)
    (ha : ∀ b ∈ actions, ¬b.Starts id)
    (hr : ((e.run sha256 cfg (a :: actions)).perform sha256 cfg (.release id)).2 = .raised x) :
    OwnHarmless sha256 cfg id e a := by
  intro hown
  rcases (perform_change e a).own hs.ledger hs.shelved hown with h | ⟨hdone, -⟩
  · exact h
  · have hrun : ((e.step sha256 cfg a).run sha256 cfg actions).Done id := Done.run hdone ha
    exact absurd hr (hrun.not_raised x)

lemma along_of_raise {actions : List Action} {x : EngineError} (hs : e.Sound sha256 cfg)
    (ha : ∀ b ∈ actions, ¬b.Starts id)
    (hr : ((e.run sha256 cfg actions).perform sha256 cfg (.release id)).2 = .raised x) :
    Runs.Along (step sha256 cfg) (OwnHarmless sha256 cfg id) e (actions ++ [.release id]) := by
  induction actions generalizing e with
  | nil =>
    refine ⟨fun hown => ?_, trivial⟩
    rcases (perform_change e (.release id)).own hs.ledger hs.shelved hown with h | ⟨-, hne⟩
    · exact h
    · exact absurd hr (hne x)
  | cons a actions ih =>
    have hrest : ∀ b ∈ actions, ¬b.Starts id := fun b hb => ha b (List.mem_cons_of_mem _ hb)
    exact ⟨ownHarmless_of_raise hs hrest hr, ih (hs.step a) hrest hr⟩

lemma Sound.noTrace (h : e.Sound sha256 cfg) (hid : e.writer? id = none) : NoTrace sha256 cfg id e where
  gone := hid
  inflight := by
    intro k hk
    obtain ⟨w, hm, he⟩ := (h.ledger.inflight k).mp hk
    exact ⟨w, hm, Table.lookup_eq_none.mp hid w hm, he⟩
  reserved := h.ledger.reserved
  folders := by
    intro f hf
    refine (h.shelved.folders f hf).imp_left ?_
    rintro ⟨w, hm, hst, hp⟩
    exact ⟨w, hm, Table.lookup_eq_none.mp hid w hm, hst, hp⟩

lemma noTrace_of_raise {x : EngineError} (hs : e.Sound sha256 cfg)
    (hr : (e.perform sha256 cfg (.release id)).2 = .raised x) :
    NoTrace sha256 cfg id (e.step sha256 cfg (.release id)) := by
  obtain ⟨w, hw, -, he⟩ := release_raised hr
  refine (hs.step _).noTrace ?_
  rw [he, ← writer?_id hw]
  exact writer?_remove rfl

/-- An exception that a call raises from its first step, or from its only one, leaves everything as it was. -/
lemma Change.raise_unchanged (hc : Change sha256 cfg e a e' r) {x : EngineError} (hr : r = .raised x)
    (ha : ∀ id, a ≠ .release id) : e' = e := by
  cases hc with
  | idle | raised => rfl
  | released w x hw hp => exact absurd rfl (ha w.id)
  | started | stored | failing | published | cleaned | accounted | wrote | deleted => cases hr

end Engine

end Vault.Storage
