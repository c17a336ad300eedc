import Vault.Integrity.Detection

/-! The loop of `scan_node`: what one `verify_replica` does to the rows, and which rows are marked when the scan
is over. -/

namespace Vault.Integrity

open Vault.Common Vault.Metadata Vault.Storage Vault.Lib Vault.Lib.Script Vault.Lib.Transaction

/-- `VERIFY` is answered from the disks; nothing is assumed of the other requests. -/
def AnswersFrom (answer : String → UUID → Except ClientError Blob) :
    ∀ {β : Type}, Request β → World → β → World → Prop
  | _, .verify n i, _, b, _ => b = answer n i
  | _, _, _, _, _ => True

section Rows

variable {sha256 : Bytes → Checksum} {disks : Disks} {rf : ℕ} {db view view' : Db} {n : String} {r : Replica}
  {rest : List Replica} {v : Version} {b : Blob}

/-- The row is marked when it is looked at. -/
def Flagged (sha256 : Bytes → Checksum) (disks : Disks) (db : Db) (r : Replica) : Prop :=
  Measured disks db r ∧ ¬Sane sha256 disks db r

/-- The row has been looked at, and only it may have changed. -/
structure Looked (sha256 : Bytes → Checksum) (disks : Disks) (db : Db) (n : String) (r : Replica)
    (rest : List Replica) (view view' : Db) : Prop where
  scanning : Scanning db n rest view'
  others : ∀ s, s.replicaId ≠ r.replicaId → (s ∈ view'.replicas ↔ s ∈ view.replicas)
  status : ∀ s ∈ view'.replicas, s.replicaId = r.replicaId →
    (s.status = .healthy ↔ ¬Flagged sha256 disks db r)

lemma Looked.frame (h : Looked sha256 disks db n r rest view view') {view'' : Db}
    (hv : view''.versions = view'.versions) (hn : view''.nodes = view'.nodes)
    (hr : view''.replicas = view'.replicas) : Looked sha256 disks db n r rest view view'' where
  scanning := h.scanning.frame hv hn hr
  others := hr ▸ h.others
  status := hr ▸ h.status

end Rows

section Step

variable {sha256 : Bytes → Checksum} {disks : Disks} {rf : ℕ} {db : Db} {n : String} {r : Replica}
  {rest : List Replica} {v : Version} {b : Blob} {p : Point Db World Note}

/-- What is known of the row when `verify_replica` comes to it. -/
structure Next (db : Db) (n : String) (r : Replica) (rest : List Replica) (v : Version) : Prop where
  keyed : Keyed db
  row : r ∈ db.replicas
  node : r.nodeId = n
  healthy : r.status = .healthy
  fresh : r ∉ rest
  version : db.version? r.versionId = some v
  committed : v.state = .committed
  nodeHealthy : ∃ m, db.node? n = some m ∧ m.status = .healthy

abbrev Answer (sha256 : Bytes → Checksum) (disks : Disks) (db : Db) :
    ∀ {β : Type}, Request β → World → β → World → Prop :=
  AnswersFrom (remote sha256 disks db)

abbrev LookedAt (sha256 : Bytes → Checksum) (disks : Disks) (rf : ℕ) (db : Db) (n : String) (r : Replica)
    (rest : List Replica) (view : Db) {α : Type} : Post Db Failure Note World α :=
  Post.seq
    (fun _ q => Passes sha256 disks rf db r ∧ Looked sha256 disks db n r rest view q.session.view)
    (fun _ q => ¬Passes sha256 disks rf db r ∧ Looked sha256 disks db n r rest view q.session.view)

lemma wp_schedule {view : Db} (hx : Next db n r rest v) (hl : Looked sha256 disks db n r rest view p.session.view)
    (hp : p.session.view = marked r view) (hm : Measured disks db r) (hs : ¬Sane sha256 disks db r) :
    wp (Answer sha256 disks db) (LookedAt sha256 disks rf db n r rest view)
      (Repair.schedule r.versionId rf (.value "integrity-mismatch") (some r)) p := by
  have hscanning : Scanning db n rest (marked r view) := hp ▸ hl.scanning
  have hiff := hscanning.schedules_iff hx.keyed hx.row hx.node hx.version rf (.value "integrity-mismatch")
  rw [Repair.schedule, wp_bind, wp_query, Post.seq_ok, hp]
  cases hrun : (Repair.scheduleForVersion r.versionId rf (.value "integrity-mismatch") (some r)).run
      (marked r view) with
  | error e =>
    rw [wp_raise]
    have hno : ¬Schedulable rf db r := by
      rw [← hiff, hrun]
      simp
    exact ⟨fun hpass => hpass.2.elim hs hno, hl⟩
  | ok out =>
    have hpass : Passes sha256 disks rf db r := ⟨hm, Or.inr (hiff.mp ⟨out, hrun⟩)⟩
    obtain ⟨dispatch, db'⟩ := out
    rcases dispatch with _ | (job | job)
    · rw [wp_pure]
      exact ⟨hpass, hl⟩
    · rw [wp_pure]
      exact ⟨hpass, hl⟩
    · rw [wp_bind, wp_save, Post.seq_ok, wp_pure]
      exact ⟨hpass, hl.frame rfl rfl rfl⟩

end Step

section Scan

variable {sha256 : Bytes → Checksum} {disks : Disks} {rf : ℕ} {db view view' : Db} {n : String}
  {r : Replica} {done rest : List Replica}

/-- The scan comes to the replica: no replica before it stops the scan. -/
def Reached (sha256 : Bytes → Checksum) (disks : Disks) (rf : ℕ) (db : Db) (n : String) (r : Replica) : Prop :=
  ∀ q ∈ sought db n, q.replicaId.n < r.replicaId.n → Passes sha256 disks rf db q

/-- The scan has looked at `done`, and `rest` is still to come. -/
structure Progress (sha256 : Bytes → Checksum) (disks : Disks) (db : Db) (n : String)
    (done rest : List Replica) (view : Db) : Prop where
  split : sought db n = done ++ rest
  scanning : Scanning db n rest view
  verdicts : ∀ r ∈ done, ∀ s ∈ view.replicas, s.replicaId = r.replicaId →
    (s.status = .healthy ↔ ¬Flagged sha256 disks db r)

/-- What the scan leaves: a row is marked when the scan came to it and its bytes are found wrong. -/
def Scanned (sha256 : Bytes → Checksum) (disks : Disks) (rf : ℕ) (db : Db) (n : String) (view : Db) : Prop :=
  ∀ r ∈ sought db n, ∃ s, view.replica? r.replicaId = some s ∧
    (s.status = .healthy ↔ ¬(Reached sha256 disks rf db n r ∧ Flagged sha256 disks db r))

lemma mem_sought : r ∈ sought db n ↔ r ∈ db.replicas ∧ r.nodeId = n ∧ r.status = .healthy ∧
    ∃ v, db.version? r.versionId = some v ∧ v.state = .committed := by
  simp only [sought, byReplicaId, List.mem_mergeSort, committedOn, List.mem_filter, decide_eq_true_eq,
    Option.mem_def]
  tauto

lemma sought_nodup (hk : Keyed db) : ((sought db n).map Replica.replicaId).Nodup := by
  have hperm := (List.mergeSort_perm ((committedOn db n).filter (fun r => r.status = .healthy))
    (fun r s => r.replicaId.n ≤ s.replicaId.n)).map Replica.replicaId
  refine hperm.nodup_iff.mpr ?_
  refine hk.ids.sublist (List.Sublist.map _ ?_)
  exact List.filter_sublist.trans List.filter_sublist

/-- The rows are sought in strictly rising order of their identifiers. -/
lemma sought_sorted (hk : Keyed db) : (sought db n).Pairwise (fun r s => r.replicaId.n < s.replicaId.n) := by
  have hle : (sought db n).Pairwise (fun r s => r.replicaId.n ≤ s.replicaId.n) := by
    have hsorted : (sought db n).Pairwise (fun r s => decide (r.replicaId.n ≤ s.replicaId.n) = true) := by
      refine List.pairwise_mergeSort (fun a b c hab hbc => ?_) (fun a b => ?_) _
      · exact decide_eq_true ((of_decide_eq_true hab).trans (of_decide_eq_true hbc))
      · simpa using le_total a.replicaId.n b.replicaId.n
    exact hsorted.imp of_decide_eq_true
  have hne := List.pairwise_map.mp (sought_nodup (n := n) hk)
  refine (hle.and hne).imp ?_
  rintro a b ⟨hab, hneq⟩
  refine lt_of_le_of_ne hab fun he => hneq ?_
  exact congrArg UUID.mk he

lemma Progress.start (db : Db) (n : String) : Progress sha256 disks db n [] (sought db n) db where
  split := rfl
  scanning := Scanning.start db n _
  verdicts := by simp

lemma Progress.step (h : Progress sha256 disks db n done (r :: rest) view) (hk : Keyed db)
    (hl : Looked sha256 disks db n r rest view view') : Progress sha256 disks db n (done ++ [r]) rest view' where
  split := by rw [h.split, List.append_assoc, List.singleton_append]
  scanning := hl.scanning
  verdicts q hq s hs hid := by
    rcases List.mem_append.mp hq with hq | hq
    · have hsorted := sought_sorted (n := n) hk
      rw [h.split] at hsorted
      have hlt := (List.pairwise_append.mp hsorted).2.2 q hq r List.mem_cons_self
      have hne : s.replicaId ≠ r.replicaId := fun he => absurd (hid.symm.trans he) fun h => by simp [h] at hlt
      exact h.verdicts q hq s ((hl.others s hne).mp hs) hid
    · rw [List.mem_singleton] at hq
      subst hq
      exact hl.status s hs hid

lemma Progress.fresh (h : Progress sha256 disks db n done (r :: rest) view) (hk : Keyed db) : r ∉ rest := by
  have hsorted := sought_sorted (n := n) hk
  rw [h.split] at hsorted
  have hrest := (List.pairwise_cons.mp (List.pairwise_append.mp hsorted).2.1).1
  exact fun hr => lt_irrefl _ (hrest r hr)

/-- When exactly the rows in `done` have been reached, the scan is over. -/
lemma Progress.scanned (h : Progress sha256 disks db n done rest view) (hk : Keyed db)
    (hreached : ∀ q ∈ sought db n, Reached sha256 disks rf db n q ↔ q ∈ done) :
    Scanned sha256 disks rf db n view := by
  intro q hq
  obtain ⟨hdb, hnode, hhealthy, -⟩ := mem_sought.mp hq
  obtain ⟨s, hs, hid, -, -⟩ := h.scanning.image hdb
  refine ⟨s, hid ▸ Table.lookup_of_mem (h.scanning.ids hk) hs, ?_⟩
  rw [hreached q hq]
  rcases List.mem_append.mp (h.split ▸ hq) with hdone | hrest
  · rw [h.verdicts q hdone s hs hid]
    simp [hdone]
  · have hview := h.scanning.untouched q hdb (Or.inr hrest)
    obtain rfl := Table.eq_of_key (h.scanning.ids hk) hview hs hid.symm
    have hnot : q ∉ done := by
      intro hdone
      have hsorted := sought_sorted (n := n) hk
      rw [h.split] at hsorted
      exact lt_irrefl _ ((List.pairwise_append.mp hsorted).2.2 q hdone q hrest)
    exact iff_of_true hhealthy fun hf => hnot hf.1

lemma Progress.returned (h : Progress sha256 disks db n done [] view) (hk : Keyed db)
    (hpass : ∀ q ∈ done, Passes sha256 disks rf db q) : Scanned sha256 disks rf db n view := by
  refine h.scanned hk fun q hq => ?_
  have hsplit := h.split
  rw [List.append_nil] at hsplit
  exact iff_of_true (fun q' hq' _ => hpass q' (hsplit ▸ hq')) (hsplit ▸ hq)

lemma Progress.raised (h : Progress sha256 disks db n done (r :: rest) view) (hk : Keyed db)
    (hpass : ∀ q ∈ done, Passes sha256 disks rf db q) (hr : ¬Passes sha256 disks rf db r)
    (hl : Looked sha256 disks db n r rest view view') : Scanned sha256 disks rf db n view' := by
  refine (h.step hk hl).scanned hk fun q hq => ?_
  have hsorted := sought_sorted (n := n) hk
  rw [h.split] at hq hsorted
  obtain ⟨-, hlater, hbefore⟩ := List.pairwise_append.mp hsorted
  have hrest := (List.pairwise_cons.mp hlater).1
  rw [List.mem_append, List.mem_singleton]
  rcases List.mem_append.mp hq with hdone | hcons
  · refine iff_of_true (fun q' hq' hlt => ?_) (Or.inl hdone)
    rcases List.mem_append.mp (h.split ▸ hq') with hq' | hq'
    · exact hpass q' hq'
    · exact absurd hlt (hbefore q hdone q' hq').asymm
  · rcases List.mem_cons.mp hcons with rfl | hlast
    · refine iff_of_true (fun q' hq' hlt => ?_) (Or.inr rfl)
      rcases List.mem_append.mp (h.split ▸ hq') with hq' | hq'
      · exact hpass q' hq'
      · rcases List.mem_cons.mp hq' with rfl | hq'
        · exact absurd hlt (lt_irrefl _)
        · exact absurd hlt (hrest q' hq').asymm
    · have hmem : r ∈ sought db n := h.split ▸ List.mem_append_right _ List.mem_cons_self
      refine iff_of_false (fun hreach => hr (hreach r hmem (hrest q hlast))) ?_
      rintro (hdone | rfl)
      · exact lt_irrefl _ (hbefore q hdone q hcons)
      · exact lt_irrefl _ (hrest q hlast)

end Scan

end Vault.Integrity
