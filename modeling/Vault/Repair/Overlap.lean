import Vault.Repair.Advance

/-! Any number of repair executions over one database and one set of storage nodes. Executions
start, advance by one step and stop in any order, and two of them may run the same job. As long as
no execution starts while another one works on the same version and target node, `HEALTHY` means
that the bytes are there. -/

namespace Vault.Repair

open Vault.Common Vault.Metadata Vault.Storage Vault.Lib Vault.Lib.Transaction

structure World where
  db : Db
  store : Store
  executions : ℕ → Option Execution

inductive Action
  | start (k : ℕ) (repairId : UUID)
  | advance (k : ℕ) (fault : Option Fault) (received : Blob) (now : Time)
  | stop (k : ℕ)

def World.step (cfg : Config) (w : World) : Action → World
  | .start k repairId =>
    match w.executions k with
    | some _ => w
    | none =>
      let (e, db) := startExecution cfg.maxAttempts repairId w.db
      { w with db := db, executions := Function.update w.executions k e }
  | .advance k fault received now =>
    match w.executions k with
    | none => w
    | some e =>
      let (e, db, store) := e.step cfg fault received now w.db w.store
      ⟨db, store, Function.update w.executions k e⟩
  | .stop k => { w with executions := Function.update w.executions k none }

def World.run (cfg : Config) (w : World) (actions : List Action) : World :=
  actions.foldl (World.step cfg) w

def Undisputed (w : World) : Action → Prop
  | .start _ repairId => ∀ job, w.db.repairJob? repairId = some job →
      ∀ j e, w.executions j = some e → e.place ≠ (job.versionId, job.targetNodeId)
  | _ => True

def UndisputedRun (cfg : Config) : World → List Action → Prop
  | _, [] => True
  | w, a :: actions => Undisputed w a ∧ UndisputedRun cfg (w.step cfg a) actions

structure Ready (db : Db) (s : Store) (e : Execution) : Prop where
  version : db.version? e.job.versionId = some e.version
  row : ∃ r ∈ db.replicas, r.replicaId = e.replicaId ∧ r.place = e.place ∧
    (e.phase = .succeed ∨ r.status ≠ .healthy)
  measured : ∀ b, e.phase = .markHealthy b →
    s e.job.targetNodeId e.job.versionId = some b ∧ b.Matches e.version

structure Safe (w : World) : Prop where
  wellFormed : w.db.WellFormed
  backed : HealthyBacked w.db w.store
  apart : ∀ i j e f, w.executions i = some e → w.executions j = some f → e.place = f.place → i = j
  ready : ∀ i e, w.executions i = some e → Ready w.db w.store e

lemma Ready.versionId {db : Db} {s : Store} {e : Execution} (h : Ready db s e) :
    e.version.versionId = e.job.versionId :=
  version?_id h.version

lemma Ready.frame {db db' : Db} {s : Store} {e : Execution} (h : Ready db s e)
    (hr : db'.replicas = db.replicas) (hv : db'.versions = db.versions) : Ready db' s e where
  version := by simpa only [Db.version?, hv] using h.version
  row := hr ▸ h.row
  measured := h.measured

lemma backed_congr {db db' : Db} {s s' : Store} {r : Replica} (hv : db'.versions = db.versions)
    (hs : s' r.nodeId r.versionId = s r.nodeId r.versionId) (h : Backed db s r) : Backed db' s' r := by
  simpa only [Backed, Db.version?, hv, hs] using h

lemma Retargeted.healthyBacked {db db' : Db} {s : Store} {target : Replica}
    (h : Retargeted db target db') (hb : HealthyBacked db s) : HealthyBacked db' s := by
  intro r hr hs
  rcases (h.rows r).mp hr with ⟨hr, -⟩ | rfl
  · exact backed_congr h.versions rfl (hb r hr hs)
  · rw [h.repairing] at hs
    cases hs

lemma Retargeted.ready {db db' : Db} {s : Store} {target : Replica} {e : Execution}
    (h : Retargeted db target db') (he : Ready db s e) : Ready db' s e where
  version := by simpa only [Db.version?, h.versions] using he.version
  row := by
    obtain ⟨r, hr, hid, hp, hs⟩ := he.row
    by_cases ht : r.place = target.place
    · refine ⟨target, (h.rows target).mpr (Or.inr rfl), ?_, ht.symm.trans hp, Or.inr ?_⟩
      · exact (h.before r hr ht).1.symm.trans hid
      · rw [h.repairing]
        decide
    · exact ⟨r, (h.rows r).mpr (Or.inl ⟨hr, ht⟩), hid, hp, hs⟩
  measured := he.measured

lemma apart_update {executions : ℕ → Option Execution} {k : ℕ} {x : Option Execution}
    (ha : ∀ i j e f, executions i = some e → executions j = some f → e.place = f.place → i = j)
    (hx : ∀ e j f, x = some e → executions j = some f → j ≠ k → e.place ≠ f.place) :
    ∀ i j e f, Function.update executions k x i = some e → Function.update executions k x j = some f →
      e.place = f.place → i = j := by
  intro i j e f hi hj hp
  by_cases hik : i = k <;> by_cases hjk : j = k
  · rw [hik, hjk]
  · subst hik
    rw [Function.update_self] at hi
    rw [Function.update_of_ne hjk] at hj
    exact absurd hp (hx e j f hi hj hjk)
  · subst hjk
    rw [Function.update_self] at hj
    rw [Function.update_of_ne hik] at hi
    exact absurd hp.symm (hx f i e hj hi hik)
  · rw [Function.update_of_ne hik] at hi
    rw [Function.update_of_ne hjk] at hj
    exact ha i j e f hi hj hp

/-- A step replaces the execution in slot `k`; it is safe when the tables and the bytes stay in
order, the other executions stay ready, and the new one is ready and works elsewhere. -/
lemma Safe.update {w : World} (h : Safe w) {db' : Db} {s' : Store} {k : ℕ} {x : Option Execution}
    (hw : db'.WellFormed) (hb : HealthyBacked db' s')
    (hothers : ∀ j f, w.executions j = some f → j ≠ k → Ready db' s' f)
    (hx : ∀ e, x = some e → Ready db' s' e)
    (hp : ∀ e j f, x = some e → w.executions j = some f → j ≠ k → e.place ≠ f.place) :
    Safe ⟨db', s', Function.update w.executions k x⟩ where
  wellFormed := hw
  backed := hb
  apart := apart_update h.apart hp
  ready j f hj := by
    by_cases hjk : j = k
    · subst hjk
      simp only [Function.update_self] at hj
      exact hx f hj
    · simp only [Function.update_of_ne hjk] at hj
      exact hothers j f hj hjk

lemma Safe.start {w : World} (h : Safe w) (m : ℕ) {k : ℕ} {repairId : UUID}
    (hu : Undisputed w (.start k repairId)) :
    Safe ⟨(startExecution m repairId w.db).2, w.store,
      Function.update w.executions k (startExecution m repairId w.db).1⟩ := by
  unfold startExecution
  rcases atomic_cases (beginJob m repairId) w.db with ⟨b, db', hb, he⟩ | ⟨f, -, he⟩
  · rw [he]
    cases beginJob_ok h.wellFormed hb with
    | closed f hne =>
      have hnone : b.execution = none := by
        cases b with
        | running e => exact absurd rfl (hne e)
        | _ => rfl
      simp only [hnone]
      refine h.update (h.wellFormed.frame rfl rfl le_rfl) h.backed
        (fun j f hj _ => (h.ready j f hj).frame rfl rfl) (by simp) (by simp)
    | refused ht _ _ _ _ _ =>
      exact h.update ht.wellFormed (ht.healthyBacked h.backed) (fun j f hj _ => ht.ready (h.ready j f hj))
        (by simp [Begun.execution]) (by simp [Begun.execution])
    | @running _ job version source target ht hjob hv _ _ _ hplace =>
      refine h.update ht.wellFormed (ht.healthyBacked h.backed)
        (fun j f hj _ => ht.ready (h.ready j f hj)) ?_ ?_
      · rintro e ⟨⟩
        constructor
        case version =>
          rw [Db.version?, ht.versions]
          exact hv
        case row =>
          refine ⟨target, (ht.rows target).mpr (Or.inr rfl), rfl, hplace, Or.inr ?_⟩
          rw [ht.repairing]
          decide
        case measured =>
          intro b hm
          cases hm
      · rintro e j f ⟨⟩ hj -
        exact (hu job hjob j f hj).symm
  · rw [he]
    exact h.update h.wellFormed h.backed (fun j f hj _ => h.ready j f hj) (by simp) (by simp)

lemma Ready.not_healthy {db : Db} {s : Store} {e : Execution} (hw : db.WellFormed) (h : Ready db s e)
    (hp : e.phase ≠ .succeed) {r : Replica} (hr : r ∈ db.replicas) (hpl : r.place = e.place) :
    r.status ≠ .healthy := by
  obtain ⟨q, hq, -, hqp, hqs⟩ := h.row
  rw [hw.eq_of_place hr hq (hpl.trans hqp.symm)]
  exact hqs.resolve_left hp

lemma Ready.set {db : Db} {s : Store} {e : Execution} (h : Ready db s e) {n : String} {i : UUID}
    {b : Option Blob} (hne : e.place ≠ (i, n)) : Ready db (s.set n i b) e where
  version := h.version
  row := h.row
  measured c hc := by
    rw [Store.set_ne hne]
    exact h.measured c hc

lemma Ready.enter {db : Db} {s s' : Store} {e : Execution} (h : Ready db s e) (hp : e.phase ≠ .succeed)
    {phase : Phase} (hm : ∀ b, phase = .markHealthy b →
      s' e.job.targetNodeId e.job.versionId = some b ∧ b.Matches e.version) :
    Ready db s' (e.enter phase) where
  version := h.version
  row := by
    obtain ⟨r, hr, hid, hpl, hs⟩ := h.row
    exact ⟨r, hr, hid, hpl, Or.inr (hs.resolve_left hp)⟩
  measured := hm

lemma healthyBacked_set {db : Db} {s : Store} (h : HealthyBacked db s) {n : String} {i : UUID}
    {b : Option Blob} (hn : ∀ r ∈ db.replicas, r.place = (i, n) → r.status ≠ .healthy) :
    HealthyBacked db (s.set n i b) := by
  intro r hr hs
  have hne : r.place ≠ (i, n) := fun hp => hn r hr hp hs
  exact backed_congr rfl (Store.set_ne hne) (h r hr hs)

lemma Safe.mark {w : World} (h : Safe w) {k : ℕ} {e : Execution} (he : w.executions k = some e)
    {b : Blob} {seen : Replica → ReplicaState} {now : Time} {row : Replica} {db' : Db}
    (hp : e.phase = .markHealthy b)
    (hm : (markVerified seen now e.replicaId b.checksum b.sizeBytes).run w.db = .ok (row, db')) :
    Safe ⟨db', w.store, Function.update w.executions k (some (e.enter .succeed))⟩ := by
  have hready := h.ready k e he
  obtain ⟨r, v, hid, hr, hv, -, -, -, rfl⟩ := markVerified_ok hm
  have hmem : r ∈ w.db.replicas := Table.lookup_mem hr
  have hrow : r.place = e.place := by
    obtain ⟨q, hq, hqid, hqp, -⟩ := hready.row
    rw [← hqp, h.wellFormed.eq_of_id hmem hq (hid.symm.trans hqid.symm)]
  obtain ⟨hstored, hmatch⟩ := hready.measured b hp
  set f : Replica → Replica := fun r => (r.enter .healthy).verify now v.checksum v.sizeBytes
  have hrows := mem_amendReplica h.wellFormed hmem (f := f)
  refine h.update (h.wellFormed.amend _ (fun _ => rfl) (fun _ => rfl)) ?_ ?_ ?_ ?_
  · intro q hq hs
    rcases (hrows q).mp hq with ⟨hq, -⟩ | rfl
    · exact backed_congr rfl rfl (h.backed q hq hs)
    · -- the new `HEALTHY` row is the execution's own, whose bytes were measured
      have hplace : (r.versionId, r.nodeId) = (e.job.versionId, e.job.targetNodeId) := hrow
      rw [Prod.mk.injEq] at hplace
      refine ⟨e.version, ?_, b, ?_, hmatch⟩
      · change w.db.version? r.versionId = some e.version
        rw [hplace.1]
        exact hready.version
      · change w.store r.nodeId r.versionId = some b
        rw [hplace.1, hplace.2]
        exact hstored
  · intro j g hj hjk
    have hg := h.ready j g hj
    have hne : g.place ≠ e.place := fun hpl => hjk (h.apart j k g e hj he hpl)
    refine ⟨hg.version, ?_, hg.measured⟩
    obtain ⟨q, hq, hqid, hqp, hqs⟩ := hg.row
    exact ⟨q, (hrows q).mpr (Or.inl ⟨hq, fun hpl => hne (hqp.symm.trans (hpl.trans hrow))⟩), hqid, hqp, hqs⟩
  · rintro _ ⟨⟩
    refine ⟨hready.version, ⟨f r, (hrows _).mpr (Or.inr rfl), hid.symm, hrow, Or.inl rfl⟩, ?_⟩
    intro c hc
    cases hc
  · rintro _ j g ⟨⟩ hj hjk hpl
    exact hjk (h.apart j k g e hj he hpl.symm)

lemma Safe.advance {w : World} (h : Safe w) {k : ℕ} {e : Execution} (he : w.executions k = some e)
    {x : Option Execution} {db' : Db} {s' : Store} (ha : Advance e w.db w.store x db' s') :
    Safe ⟨db', s', Function.update w.executions k x⟩ := by
  have hready := h.ready k e he
  have hapart : ∀ j f, w.executions j = some f → j ≠ k → e.place ≠ f.place :=
    fun j f hj hjk hpl => hjk (h.apart j k f e hj he hpl.symm)
  cases ha with
  | moved phase hp hn =>
    refine h.update h.wellFormed h.backed (fun j f hj _ => h.ready j f hj) ?_ ?_
    · rintro _ ⟨⟩
      exact hready.enter hp (fun b hb => absurd hb (hn b))
    · rintro _ j f ⟨⟩ hj hjk
      exact hapart j f hj hjk
  | stored phase b hp hn =>
    rw [hready.versionId]
    refine h.update h.wellFormed ?_ ?_ ?_ ?_
    · exact healthyBacked_set h.backed (fun r hr hpl => hready.not_healthy h.wellFormed hp hr hpl)
    · exact fun j f hj hjk => (h.ready j f hj).set (hapart j f hj hjk).symm
    · rintro _ ⟨⟩
      exact hready.enter hp (fun b hb => absurd hb (hn b))
    · rintro _ j f ⟨⟩ hj hjk
      exact hapart j f hj hjk
  | verified b hp hs hm =>
    refine h.update h.wellFormed h.backed (fun j f hj _ => h.ready j f hj) ?_ ?_
    · rintro _ ⟨⟩
      apply hready.enter hp
      rintro _ ⟨⟩
      exact ⟨hready.versionId ▸ hs, hm⟩
    · rintro _ j f ⟨⟩ hj hjk
      exact hapart j f hj hjk
  | marked hp hm => exact h.mark he hp hm
  | closed f =>
    exact h.update (h.wellFormed.frame rfl rfl le_rfl) h.backed
      (fun j f hj _ => (h.ready j f hj).frame rfl rfl) (by simp) (by simp)

lemma Safe.step {w : World} (h : Safe w) (cfg : Config) {a : Action} (hu : Undisputed w a) :
    Safe (w.step cfg a) := by
  cases a with
  | start k repairId =>
    simp only [World.step]
    split
    · exact h
    · exact h.start cfg.maxAttempts hu
  | advance k fault received now =>
    simp only [World.step]
    split
    · exact h
    · next e he => exact h.advance he (execution_step_advance cfg fault received now e w.db w.store)
  | stop k =>
    exact h.update h.wellFormed h.backed (fun j f hj _ => h.ready j f hj) (by simp) (by simp)

lemma Safe.run {w : World} (h : Safe w) (cfg : Config) {actions : List Action}
    (hu : UndisputedRun cfg w actions) : Safe (w.run cfg actions) := by
  induction actions generalizing w with
  | nil => exact h
  | cons a actions ih => exact ih (h.step cfg hu.1) hu.2

theorem healthy_backed_in_undisputed_runs (cfg : Config) (db : Db) (store : Store)
    (hw : db.WellFormed) (hb : HealthyBacked db store) (actions : List Action)
    (hu : UndisputedRun cfg ⟨db, store, fun _ => none⟩ actions) :
    HealthyBacked ((World.run cfg ⟨db, store, fun _ => none⟩ actions).db)
      ((World.run cfg ⟨db, store, fun _ => none⟩ actions).store) := by
  have hsafe : Safe ⟨db, store, fun _ => none⟩ := ⟨hw, hb, by simp, by simp⟩
  exact (hsafe.run cfg hu).backed

def sampleWorld : World := ⟨sampleDb, sampleStore, fun _ => none⟩

def proceed (k : ℕ) : Action := .advance k none sampleBlob 0

def oneExecution : List Action := .start 0 ⟨3⟩ :: List.replicate 7 (proceed 0)

def lateDelete : List Action :=
  [.start 0 ⟨3⟩, .start 1 ⟨3⟩, proceed 1] ++ List.replicate 6 (proceed 0) ++ [proceed 1]

lemma sampleDb_wellFormed : sampleDb.WellFormed where
  replicaIds := by decide
  freshReplica := by decide
  places := by decide
  nodeIds := by decide

theorem healthy_backed_after_one_execution :
    HealthyBacked (sampleWorld.run ⟨false, 3⟩ oneExecution).db
      (sampleWorld.run ⟨false, 3⟩ oneExecution).store := by
  apply healthy_backed_in_undisputed_runs ⟨false, 3⟩ sampleDb sampleStore sampleDb_wellFormed (by decide)
  simp [UndisputedRun, oneExecution, Undisputed, proceed, List.replicate]

theorem overlapping_execution_deletes_healthy_bytes :
    sampleDb.WellFormed ∧ HealthyBacked sampleDb sampleStore ∧
      ¬HealthyBacked (sampleWorld.run ⟨true, 3⟩ lateDelete).db
        (sampleWorld.run ⟨true, 3⟩ lateDelete).store :=
  ⟨sampleDb_wellFormed, by decide, by decide +kernel⟩

end Vault.Repair
