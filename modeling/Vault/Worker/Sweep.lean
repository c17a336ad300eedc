import Vault.Repair.Outcomes
import Vault.Worker.Tasks

/-! The sweep over the committed versions with too few healthy replicas. It leaves out none of them: each is queued
with an active job for the node with the most room, or blocked for want of a source or a target. It adds jobs and
changes nothing else, and a second sweep adds no job. -/

namespace Vault.Worker

open Vault.Common Vault.Metadata Vault.Storage Vault.Lib Vault.Lib.Script Vault.Lib.Transaction Vault.Lib.Transaction.Tx
open Vault.Repair

inductive SweepEntry
  | queued (versionId repairId : UUID) (taskId : String)
  | blocked (versionId : UUID) (error : String)
  deriving DecidableEq, Repr

def underReplicated (replicationFactor : ℕ) (db : Db) : List Version :=
  (db.versions.filter (fun v => v.state = .committed ∧
    (healthyReplicas db v.versionId).length < replicationFactor)).mergeSort (fun v w => v.versionId.n ≤ w.versionId.n)

/-- When `schedule_for_version` raises nothing waits for a commit, so that a rollback is an empty commit. -/
def rollback : Job Unit := save id

def sweepVersion (settings : Settings) (version : Version) : Job (Option SweepEntry) :=
  handle (do
    let job ← schedule version.versionId settings.replicationFactor (.value "under-replicated-scan") none
    match job with
    | none => pure none
    | some job => do
      let taskId ← request (.enqueue version.versionId job.repairId)
      pure (some (.queued version.versionId job.repairId taskId)))
    fun
    | .vault e => do
      rollback
      pure (some (.blocked version.versionId e.message))
    | e => raise e

/-- The two lists of the report are the entries of one kind each. -/
def checkUnderReplicatedObjects (settings : Settings) : Job (List SweepEntry) := do
  let db ← query
  let entries ← forEach (sweepVersion settings) (underReplicated settings.replicationFactor db)
  pure (entries.filterMap id)

/-- The tables are those of `db` but for jobs at the end. -/
def Grown (db db' : Db) : Prop :=
  ∃ new nextId, db' = { db with repairJobs := db.repairJobs ++ new, nextId := nextId }

/-- What the sweep reports about a version, and what it leaves behind for it. -/
inductive Handled (db db' : Db) (v : Version) : SweepEntry → Prop
  | queued (s : Replica) (target : StorageNode) (job : RepairJob) (taskId : String) :
      (healthySources db v.versionId).head? = some s → (candidates db v).head? = some target →
      activeJob db' v.versionId target.nodeId = some job →
      Handled db db' v (.queued v.versionId job.repairId taskId)
  | blocked (error : String) : healthySources db v.versionId = [] ∨ candidates db v = [] →
      Handled db db' v (.blocked v.versionId error)

/-- The version and, unless it is blocked, the job of an entry. -/
def SweepEntry.about : SweepEntry → UUID × Option UUID
  | .queued versionId repairId _ => (versionId, some repairId)
  | .blocked versionId _ => (versionId, none)

section Growth

variable {db db' : Db} {v : Version} {entry : SweepEntry}

lemma Grown.refl (db : Db) : Grown db db := ⟨[], db.nextId, by rw [List.append_nil]⟩

lemma Grown.insert (h : Grown db db') (job : RepairJob) : Grown db (insertRepairJob job db') := by
  obtain ⟨new, nextId, rfl⟩ := h
  exact ⟨new ++ [job], nextId + 1, by rw [insertRepairJob, List.append_assoc]⟩

lemma Grown.underReplicated (h : Grown db db') (rf : ℕ) : underReplicated rf db' = underReplicated rf db := by
  obtain ⟨new, nextId, rfl⟩ := h
  rfl

lemma Grown.healthySources (h : Grown db db') (i : UUID) : healthySources db' i = healthySources db i := by
  obtain ⟨new, nextId, rfl⟩ := h
  rfl

lemma Grown.candidates (h : Grown db db') (v : Version) : candidates db' v = candidates db v := by
  obtain ⟨new, nextId, rfl⟩ := h
  rfl

lemma activeJob_insert {i : UUID} {n : String} {job : RepairJob} (h : activeJob db i n = some job) (new : RepairJob) :
    activeJob (insertRepairJob new db) i n = some job := by
  simp only [activeJob, insertRepairJob] at h ⊢
  rw [List.find?_append, h, Option.some_or]

lemma activeJob_new {i : UUID} {n : String} {job : RepairJob} (h : activeJob db i n = none) (hi : job.versionId = i)
    (hn : job.targetNodeId = n) (hs : Active job.status) : activeJob (insertRepairJob job db) i n = some job := by
  simp only [activeJob, insertRepairJob] at h ⊢
  rw [List.find?_append, h, Option.none_or]
  exact List.find?_cons_of_pos (by simp [hi, hn, hs])

lemma Handled.insert (h : Handled db db' v entry) (job : RepairJob) : Handled db (insertRepairJob job db') v entry := by
  cases h with
  | queued s target found taskId hs ht hactive =>
    exact .queued s target found taskId hs ht (activeJob_insert hactive job)
  | blocked error hnone => exact .blocked error hnone

lemma not_blocked {s : Replica} {target : StorageNode} (hs : (healthySources db v.versionId).head? = some s)
    (ht : (candidates db v).head? = some target) : ¬(healthySources db v.versionId = [] ∨ candidates db v = []) := by
  rintro (hnone | hnone)
  · rw [hnone] at hs
    cases hs
  · rw [hnone] at ht
    cases ht

lemma Handled.about_eq (h : Handled db db' v entry) {entry' : SweepEntry} (h' : Handled db db' v entry') :
    entry'.about = entry.about := by
  cases h with
  | queued s target job taskId hs ht hactive =>
    cases h' with
    | queued s' target' job' taskId' hs' ht' hactive' =>
      cases ht.symm.trans ht'
      cases hactive.symm.trans hactive'
      rfl
    | blocked error hnone => exact absurd hnone (not_blocked hs ht)
  | blocked error hnone =>
    cases h' with
    | queued s target job taskId hs ht hactive => exact absurd hnone (not_blocked hs ht)
    | blocked error' hnone' => rfl

end Growth

/-- Version ids are the primary key, and a replica refers to a node. -/
structure KeyedTables (db : Db) : Prop where
  versions : (db.versions.map Version.versionId).Nodup
  replicas : ∀ r ∈ db.replicas, (db.node? r.nodeId).isSome = true

section Steps

variable {db : Db} {v : Version} {rf : ℕ}

lemma mem_underReplicated :
    v ∈ underReplicated rf db ↔
      v ∈ db.versions ∧ v.state = .committed ∧ (healthyReplicas db v.versionId).length < rf := by
  simp [underReplicated, List.mem_mergeSort, List.mem_filter]

/-- With a source and a target nothing keeps a schedule from a job. -/
lemma scheduleForVersion_blocked (hk : KeyedTables db) (hv : db.version? v.versionId = some v) (hrf : 1 ≤ rf)
    {reason : Arg String} {e : Failure} (h : (scheduleForVersion v.versionId rf reason none).run db = .error e) :
    healthySources db v.versionId = [] ∨ candidates db v = [] := by
  simp only [scheduleForVersion, bind_error, require_error, run_require, read_error, run_read, demand_error,
    run_demand, false_or, Prod.mk.injEq] at h
  rcases h with ⟨hno, -⟩ | ⟨_, db, ⟨-, -, rfl⟩, _, db, ⟨rfl, rfl⟩, h⟩
  · omega
  rcases h with ⟨hmissing, -⟩ | ⟨v', db, ⟨hv', rfl⟩, h⟩
  · cases hv.symm.trans hmissing
  cases hv.symm.trans hv'
  split_ifs at h with henough
  · exact absurd h pure_error
  simp only [bind_error, demand_error, run_demand] at h
  rcases h with ⟨hnone, -⟩ | ⟨s, db, ⟨hs, rfl⟩, ⟨hnone, -⟩ | ⟨t, db, ⟨ht, rfl⟩, h⟩⟩
  · exact Or.inl (List.head?_eq_none_iff.mp hnone)
  · exact Or.inr (List.head?_eq_none_iff.mp hnone)
  have htarget : (candidates db v).head? = some t := ht
  have hsource := mem_healthySources.mp (List.mem_of_head? hs)
  obtain ⟨n, hn⟩ := Option.isSome_iff_exists.mp (hk.replicas s hsource.1)
  have hmember := (mem_candidates.mp (List.mem_of_head? htarget)).1
  have hnode : db.node? t.nodeId ≠ none := fun hnone => Table.lookup_eq_none.mp hnone t hmember rfl
  have hne := source_ne_candidate hv (List.mem_of_head? hs) (List.mem_of_head? htarget)
  split at h
  · exact absurd h pure_error
  · rename_i hactive
    simp only [createJob, bind_error, pure_error, and_false, exists_false, or_false, read_error, run_read,
      false_or, require_error, run_require, Prod.mk.injEq] at h
    rcases h with ⟨_, db, ⟨rfl, rfl⟩, ⟨hsame, -⟩ | ⟨_, db, ⟨-, -, rfl⟩, h⟩⟩
    · exact absurd (fun he => absurd he hne) hsame
    · simp only [hactive, bind_error, demand_error, run_demand, write_error, pure_error, and_false, exists_false,
        or_false] at h
      rcases h with ⟨hmissing, -⟩ | ⟨_, db, ⟨-, rfl⟩, ⟨hmissing, -⟩⟩
      · cases hn.symm.trans hmissing
      · exact absurd hmissing hnode

variable {ρ : Type} {answers : ∀ {β : Type}, Request β → ρ → β → ρ → Prop}

/-- Nothing waits for a commit. -/
def Saved (p : Point Db ρ Note) : Prop := p.session.durable = p.session.view

lemma keeps_schedule_saved (i : UUID) (rf : ℤ) (reason : Arg String) (preferred : Option Replica) :
    Keeps answers Saved (schedule i rf reason preferred) := by
  rw [schedule]
  apply keeps_bind
  · apply keeps_query
    exact fun p hp => hp
  · intro db
    split
    · exact keeps_raise _
    · exact keeps_pure _
    · exact keeps_pure _
    · exact keeps_bind (fun p _ => wp_save.mpr rfl) fun _ => keeps_pure _

lemma wp_rollback {R : Post Db Failure Note ρ Unit} {p : Point Db ρ Note} (hs : Saved p) :
    wp answers R rollback p ↔ R (.ok ()) (p.move p.session.rollback) := by
  rw [rollback, wp_save, Session.commit, Session.rollback, hs, id_eq]

/-- What the sweep of one version leaves behind: its entry, and a job where there was none. -/
structure SweptOne (db : Db) (v : Version) (p q : Point Db ρ Note) (r : Option SweepEntry) : Prop where
  saved : Saved q
  entry : ∃ entry, r = some entry ∧ Handled db q.session.view v entry
  view : q.session.view = p.session.view ∨ ∃ s t job, (healthySources db v.versionId).head? = some s ∧
    (candidates db v).head? = some t ∧ activeJob p.session.view v.versionId t.nodeId = none ∧
      q.session.view = insertRepairJob job p.session.view

lemma wp_sweepVersion (hk : KeyedTables db) (settings : Settings)
    (hv : v ∈ underReplicated settings.replicationFactor db)
    {p : Point Db ρ Note} (hg : Grown db p.session.view) (hs : Saved p) :
    wp answers (Post.seq (fun r q => SweptOne db v p q r) fun _ _ => False) (sweepVersion settings v) p := by
  obtain ⟨hmem, -, hfew⟩ := mem_underReplicated.mp hv
  have hsources := hg.healthySources v.versionId
  have hcandidates := hg.candidates v
  have hreplicas : healthyReplicas p.session.view v.versionId = healthyReplicas db v.versionId := by
    obtain ⟨new, nextId, hview⟩ := hg
    rw [hview]
    rfl
  have hkeyed : KeyedTables p.session.view := by
    obtain ⟨new, nextId, hview⟩ := hg
    rw [hview]
    exact ⟨hk.versions, hk.replicas⟩
  have hfound : p.session.view.version? v.versionId = some v := by
    obtain ⟨new, nextId, hview⟩ := hg
    rw [hview]
    exact (Table.lookup_iff hk.versions).mpr ⟨hmem, rfl⟩
  have hpositive := settings.replicationFactor_pos
  have hpreferred : ∀ w, p.session.view.version? v.versionId = some w → preferredNode p.session.view w none = none :=
    fun _ _ => rfl
  refine wp_handle.mpr (wp_bind.mpr (wp_mono ?_ (wp_and (wp_schedule v.versionId settings.replicationFactor
    (.value "under-replicated-scan") none p) (keeps_schedule_saved _ _ _ _ p hs))))
  rintro r q ⟨⟨hschedule, -⟩, hsaved⟩
  generalize hview : q.session.view = db' at hschedule
  cases hschedule with
  | enough henough _ =>
    rw [hreplicas] at henough
    omega
  | reused w s t job hw _ hs' ht hactive =>
    cases hfound.symm.trans hw
    rw [hsources] at hs'
    have htarget : (candidates db v).head? = some t := hcandidates ▸ ht
    refine wp_bind.mpr (wp_request.mpr fun taskId w _ => wp_pure.mpr ?_)
    have hhandled : Handled db q.session.view v (.queued v.versionId job.repairId taskId) := by
      rw [hview]
      exact .queued s t job taskId hs' htarget hactive
    exact ⟨hsaved, ⟨_, rfl, hhandled⟩, Or.inl hview⟩
  | created w s t hw _ hs' ht hactive =>
    cases hfound.symm.trans hw
    rw [hsources] at hs'
    have htarget : (candidates db v).head? = some t := hcandidates ▸ ht
    refine wp_bind.mpr (wp_request.mpr fun taskId w _ => wp_pure.mpr ?_)
    have hhandled : Handled db q.session.view v (.queued v.versionId
        (newJob p.session.view v.versionId s t (.value "under-replicated-scan")).repairId taskId) := by
      rw [hview]
      exact .queued s t _ taskId hs' htarget (activeJob_new hactive rfl rfl (Or.inl rfl))
    exact ⟨hsaved, ⟨_, rfl, hhandled⟩, Or.inr ⟨s, t, _, hs', htarget, hactive, hview⟩⟩
  | failed e he =>
    obtain ⟨x, rfl⟩ := scheduleForVersion_error (by omega) hpreferred he
    have hblocked := scheduleForVersion_blocked hkeyed hfound hpositive he
    rw [hsources, hcandidates] at hblocked
    refine wp_bind.mpr ((wp_rollback hsaved).mpr (wp_pure.mpr ⟨rfl, ⟨_, rfl, .blocked _ hblocked⟩, Or.inl ?_⟩))
    exact Eq.trans hsaved hview

/-- An active job stands for every version that could be repaired. -/
def Attended (rf : ℕ) (db : Db) : Prop :=
  ∀ v ∈ underReplicated rf db, ∀ s t, (healthySources db v.versionId).head? = some s →
    (candidates db v).head? = some t → activeJob db v.versionId t.nodeId ≠ none

/-- Where the sweep stands when the versions `rest` are still to come. -/
structure MidSweep (rf : ℕ) (db : Db) (found : List (Option SweepEntry)) (rest : List Version) (p : Point Db ρ Note) :
    Prop where
  grown : Grown db p.session.view
  saved : Saved p
  attended : Attended rf db → p.session.view = db
  entries : ∃ entries done, found = entries.map some ∧ done ++ rest = underReplicated rf db ∧
    List.Forall₂ (Handled db p.session.view) done entries

lemma MidSweep.next {settings : Settings} (hk : KeyedTables db) {found : List (Option SweepEntry)} {rest : List Version}
    {p : Point Db ρ Note} (h : MidSweep settings.replicationFactor db found (v :: rest) p) :
    wp answers (Post.seq (fun r => MidSweep settings.replicationFactor db (found ++ [r]) rest) fun _ _ => False)
      (sweepVersion settings v) p := by
  obtain ⟨entries, done, hfound, hsplit, hhandled⟩ := h.entries
  have hv : v ∈ underReplicated settings.replicationFactor db := by
    rw [← hsplit]
    exact List.mem_append_right _ List.mem_cons_self
  refine wp_mono ?_ (wp_sweepVersion hk settings hv h.grown h.saved)
  intro r q hq
  cases r with
  | error e => exact hq
  | ok r =>
    obtain ⟨hsaved, ⟨entry, rfl, hentry⟩, hview⟩ := hq
    have hentries : ∀ hold : List.Forall₂ (Handled db q.session.view) done entries, ∃ entries' done',
        found ++ [some entry] = entries'.map some ∧ done' ++ rest = underReplicated settings.replicationFactor db ∧
          List.Forall₂ (Handled db q.session.view) done' entries' := by
      intro hold
      refine ⟨entries ++ [entry], done ++ [v], by rw [hfound, List.map_append]; rfl, ?_, ?_⟩
      · rw [List.append_assoc]
        exact hsplit
      · exact List.rel_append hold (.cons hentry .nil)
    rcases hview with hsame | ⟨s, t, job, hs, ht, hnone, hnew⟩
    · refine ⟨hsame ▸ h.grown, hsaved, fun ha => hsame.trans (h.attended ha), hentries ?_⟩
      rw [hsame]
      exact hhandled
    · refine ⟨hnew ▸ h.grown.insert job, hsaved, fun ha => ?_, hentries ?_⟩
      -- Where every version is attended no job is added.
      · rw [h.attended ha] at hnone
        exact absurd hnone (ha v hv s t hs ht)
      · rw [hnew]
        exact hhandled.imp fun _ _ hold => hold.insert job

lemma filterMap_map_some (entries : List SweepEntry) : (entries.map some).filterMap id = entries := by
  rw [List.filterMap_map, Function.id_comp, List.filterMap_some]

lemma wp_sweep (hk : KeyedTables db) (settings : Settings) {p : Point Db ρ Note} (hview : p.session.view = db)
    (hs : Saved p) :
    wp answers (Post.seq (fun entries q => MidSweep settings.replicationFactor db (entries.map some) [] q)
      fun _ _ => False) (checkUnderReplicatedObjects settings) p := by
  refine wp_bind.mpr (wp_query.mpr ?_)
  have hstart : MidSweep settings.replicationFactor db [] (underReplicated settings.replicationFactor db) p.look :=
    ⟨hview ▸ .refl _, hs, fun _ => hview, [], [], rfl, rfl, .nil⟩
  refine wp_bind.mpr ?_
  rw [hview]
  refine wp_mono ?_ (wp_forEach_collect (fun found v rest q hq => MidSweep.next hk hq) hstart)
  intro r q hq
  cases r with
  | error e => exact hq
  | ok found =>
    obtain ⟨entries, done, hfound, hsplit, hhandled⟩ := hq.entries
    have hsame : found = entries.map some := hfound
    refine wp_pure.mpr ?_
    rw [hsame, filterMap_map_some]
    exact ⟨hq.grown, hq.saved, hq.attended, entries, done, rfl, hsplit, hhandled⟩

end Steps

def AnyAnswer {ρ β : Type} (_ : Request β) (_ : ρ) (_ : β) (_ : ρ) : Prop := True

section Runs

variable {db db' db'' : Db} {v : Version} {rf : ℕ} {entries entries' : List SweepEntry} {done : List Version}

lemma Grown.keyed (h : Grown db db') (hk : KeyedTables db) : KeyedTables db' := by
  obtain ⟨new, nextId, rfl⟩ := h
  exact ⟨hk.versions, hk.replicas⟩

lemma Handled.before (hg : Grown db db') {entry : SweepEntry} (h : Handled db' db'' v entry) :
    Handled db db'' v entry := by
  cases h with
  | queued s target job taskId hs ht hactive =>
    rw [hg.healthySources] at hs
    rw [hg.candidates] at ht
    exact .queued s target job taskId hs ht hactive
  | blocked error hnone =>
    rw [hg.healthySources, hg.candidates] at hnone
    exact .blocked error hnone

lemma about_eq_of_handled (h : List.Forall₂ (Handled db db') done entries)
    (h' : List.Forall₂ (Handled db db') done entries') :
    entries'.map SweepEntry.about = entries.map SweepEntry.about := by
  induction h generalizing entries' with
  | nil =>
    cases h'
    rfl
  | cons hfirst hrest ih =>
    cases h' with
    | cons hfirst' hrest' => rw [List.map_cons, List.map_cons, hfirst.about_eq hfirst', ih hrest']

lemma exists_handled (h : List.Forall₂ (Handled db db') done entries) (hv : v ∈ done) :
    ∃ entry, Handled db db' v entry := by
  induction h with
  | nil => cases hv
  | cons hfirst hrest ih =>
    rcases List.mem_cons.mp hv with rfl | hv
    · exact ⟨_, hfirst⟩
    · exact ih hv

/-- A sweep leaves nothing for the next one to add. -/
lemma attended_of_handled (hg : Grown db db') (h : List.Forall₂ (Handled db db') (underReplicated rf db) entries) :
    Attended rf db' := by
  intro v hv s t hs ht
  rw [hg.underReplicated] at hv
  rw [hg.healthySources] at hs
  rw [hg.candidates] at ht
  obtain ⟨entry, hentry⟩ := exists_handled h hv
  cases hentry with
  | queued s' t' job taskId hs' ht' hactive =>
    cases ht.symm.trans ht'
    rw [hactive]
    exact Option.some_ne_none job
  | blocked error hnone => exact absurd hnone (not_blocked hs ht)

variable {ρ : Type}

/-- Whatever the world answers, a sweep returns. -/
lemma sweep_ends (hk : KeyedTables db) (serve : ∀ {β : Type}, Request β → ρ → β × ρ) (settings : Settings) (w : ρ) :
    ∃ entries q, (checkUnderReplicatedObjects settings).exec serve (Point.start db w) = (.ok entries, q) ∧
      Grown db q.session.durable ∧ (Attended settings.replicationFactor db → q.session.durable = db) ∧
        List.Forall₂ (Handled db q.session.durable) (underReplicated settings.replicationFactor db) entries := by
  have hserve : ∀ {β : Type} (q : Request β) (w : ρ), AnyAnswer q w (serve q w).1 (serve q w).2 := fun _ _ => trivial
  have hend := wp_sound hserve (wp_sweep hk settings (p := Point.start db w) rfl rfl)
  cases hrun : (checkUnderReplicatedObjects settings).exec serve (Point.start db w) with
  | mk r q =>
    rw [hrun] at hend
    cases r with
    | error e => exact hend.elim
    | ok entries =>
      obtain ⟨entries', done, hsame, hall, hhandled⟩ := hend.entries
      obtain rfl : entries = entries' := List.map_injective_iff.mpr (Option.some_injective _) hsame
      rw [List.append_nil] at hall
      have hsaved : q.session.durable = q.session.view := hend.saved
      refine ⟨entries, q, rfl, ?_, ?_, ?_⟩
      · rw [hsaved]
        exact hend.grown
      · rw [hsaved]
        exact hend.attended
      · rw [hsaved, ← hall]
        exact hhandled

/-- Whatever the world answers, a sweep reports on every version that has too few healthy replicas, and on no other:
a version of which a source and a target are there has an active job for the target afterwards. A second sweep
changes nothing and reports the same jobs. -/
theorem sweep_handles_every_shortage (serve : ∀ {β : Type}, Request β → ρ → β × ρ) (settings : Settings) (db : Db)
    (w w' : ρ) (hk : KeyedTables db) :
    ∃ entries q, (checkUnderReplicatedObjects settings).exec serve (Point.start db w) = (.ok entries, q) ∧
      Grown db q.session.durable ∧
      List.Forall₂ (Handled db q.session.durable) (underReplicated settings.replicationFactor db) entries ∧
      ∃ entries' q', (checkUnderReplicatedObjects settings).exec serve (Point.start q.session.durable w') =
          (.ok entries', q') ∧ q'.session.durable = q.session.durable ∧
        entries'.map SweepEntry.about = entries.map SweepEntry.about := by
  obtain ⟨entries, q, hrun, hgrown, -, hhandled⟩ := sweep_ends hk serve settings w
  obtain ⟨entries', q', hagain, -, hattended, hhandled'⟩ := sweep_ends (hgrown.keyed hk) serve settings w'
  have hsame : q'.session.durable = q.session.durable := hattended (attended_of_handled hgrown hhandled)
  rw [hsame, hgrown.underReplicated] at hhandled'
  exact ⟨entries, q, hrun, hgrown, hhandled, entries', q', hagain, hsame,
    about_eq_of_handled hhandled (hhandled'.imp fun _ _ h => h.before hgrown)⟩

end Runs

lemma two_copies_pos : 1 ≤ 2 := by decide

def twoCopies : Settings := ⟨2, 3, 15, 30, two_copies_pos, Rebalance.three_attempts_pos⟩

def unattendedDb : Db := { sampleDb with repairJobs := [] }

theorem sample_shortage_handled :
    underReplicated 2 unattendedDb = [sampleVersion] ∧ ∃ entries q,
      (checkUnderReplicatedObjects twoCopies).exec Storage.serve
        (Point.start unattendedDb ⟨sampleStore, fun _ => {}⟩) = (.ok entries, q) ∧
      Grown unattendedDb q.session.durable ∧
      List.Forall₂ (Handled unattendedDb q.session.durable) (underReplicated 2 unattendedDb) entries ∧
      ∃ entries' q', (checkUnderReplicatedObjects twoCopies).exec Storage.serve
          (Point.start q.session.durable ⟨sampleStore, fun _ => {}⟩) = (.ok entries', q') ∧
        q'.session.durable = q.session.durable ∧
        entries'.map SweepEntry.about = entries.map SweepEntry.about :=
  ⟨by decide +kernel, sweep_handles_every_shortage Storage.serve twoCopies unattendedDb _ _ ⟨by decide, by decide⟩⟩

end Vault.Worker
