import Vault.Jobs.Driver
import Vault.Metadata.Effects

/-! What the attempts of a job count. In every run of the three drivers, with executions that overlap, are lost and are
delivered again, the attempts of a repair job are the executions of it that have begun, since its entry is locked;
those of the other jobs are at most as many, since two entries may read the same row. -/

namespace Vault.Jobs

open Vault.Common Vault.Metadata Vault.Storage Vault.Lib Vault.Lib.Script Vault.Lib.Transaction
open Vault.Lib.Transaction.Tx

section Entry

variable {m : ℕ} {i : UUID} {db db' : Db} {job : RepairJob}

lemma findOrCreateReplica_jobs {v : UUID} {n : String} {r : Replica}
    (h : (Repair.findOrCreateReplica v n).run db = .ok (r, db')) : db'.repairJobs = db.repairJobs := by
  rw [Repair.findOrCreateReplica, bind_read] at h
  split at h
  · cases h
    rfl
  · obtain ⟨-, -, -, -, -, -, -, rfl⟩ := createReplica_ok h
    rfl

lemma setReplicaState_jobs {r : Arg UUID} {s : Arg ReplicaState} {w : Replica}
    (h : (setReplicaState r s).run db = .ok (w, db')) : db'.repairJobs = db.repairJobs := by
  rcases setReplicaState_ok h with rfl | ⟨-, -, -, -, -, -, -, rfl⟩
  · rfl
  · rfl

lemma replicaForTarget_jobs {r : Replica} (h : (Repair.replicaForTarget job).run db = .ok (r, db')) :
    db'.repairJobs = db.repairJobs := by
  rw [Repair.replicaForTarget] at h
  obtain ⟨found, db₁, hfound, h⟩ := run_bind.mp h
  rw [← findOrCreateReplica_jobs hfound]
  rw [bind_require] at h
  obtain ⟨-, h⟩ := h
  rw [run_ite] at h
  rcases h with ⟨-, h⟩ | ⟨-, h⟩
  · exact setReplicaState_jobs h
  · rw [bind_require] at h
    obtain ⟨-, h⟩ := h
    cases h
    rfl

/-- What the entry of a repair writes into the row of its job. -/
inductive Entered (maxAttempts : ℕ) (job : RepairJob) : Repair.Begun → JobRow → Prop
  | returned : Final maxAttempts (repairRow job) → Entered maxAttempts job (.returned job) (repairRow job)
  | raised (e : Failure) : ¬Final maxAttempts (repairRow job) → Entered maxAttempts job (.raised e) ⟨.failed, job.attempts⟩
  | running (e : Repair.Execution) : ¬Final maxAttempts (repairRow job) → e.job.attempts = job.attempts + 1 →
      Entered maxAttempts job (.running e) ⟨.running, job.attempts + 1⟩

lemma repairRow_amend {f : RepairJob → RepairJob} (hf : ∀ j, (f j).repairId = j.repairId) (hjob : db.repairJob? i = some job) :
    ((db.amendRepairJob i f).repairJob? i).map repairRow = some (repairRow (f job)) := by
  have hlook : (db.amendRepairJob i f).repairJob? i = some (f job) := Table.lookup_amend_self (f := f) hf hjob
  rw [hlook, Option.map_some]

lemma beginJob_row (hjob : db.repairJob? i = some job) {b : Repair.Begun}
    (h : (Repair.beginJob m i).run db = .ok (b, db')) :
    ∃ row, (db'.repairJob? i).map repairRow = some row ∧ Entered m job b row := by
  rw [Repair.beginJob, bind_read, bind_demand] at h
  obtain ⟨job', hjob', h⟩ := h
  cases hjob.symm.trans hjob'
  rw [run_ite, bind_demand] at h
  rcases h with ⟨hfinal, h⟩ | ⟨hopen, version, -, h⟩
  · cases h
    exact ⟨repairRow job, by rw [hjob, Option.map_some], .returned hfinal⟩
  rw [run_ite, bind_write] at h
  rcases h with ⟨-, h⟩ | ⟨-, h⟩
  · cases h
    exact ⟨_, repairRow_amend (fun _ => rfl) hjob, .raised _ hopen⟩
  obtain ⟨r, db₁, hr, h⟩ := run_bind.mp h
  have hjob₁ : db₁.repairJob? i = some job := by
    rw [Db.repairJob?, replicaForTarget_jobs hr]
    exact hjob
  rw [bind_read] at h
  split at h
  · cases h
    exact ⟨_, repairRow_amend (fun _ => rfl) hjob₁, .raised _ hopen⟩
  · cases h
    exact ⟨_, repairRow_amend (fun _ => rfl) hjob₁, .raised _ hopen⟩
  · rw [run_ite, bind_write, bind_write] at h
    rcases h with ⟨-, h⟩ | ⟨-, h⟩
    · cases h
      exact ⟨_, repairRow_amend (fun _ => rfl) hjob₁, .raised _ hopen⟩
    · cases h
      exact ⟨_, repairRow_amend (fun _ => rfl) hjob₁, .running _ hopen rfl⟩

end Entry

/-- The row that an execution has read at its entry and not yet written. -/
def Stage.seen? : Stage → Option JobRow
  | .entering seen _ => some seen
  | .starting seen _ => some seen
  | _ => none

/-- The execution has written the start of its job and not its end, with the attempts it has counted. -/
inductive Stage.Running : Stage → Prop
  | working (n : ℕ) (rest : Job Unit) : Running (.working n rest)
  | succeeding : Running .succeeding
  | failing (n : ℕ) : Running (.failing n)

lemma Stage.Next.seen {cfg : Config} {s s' : Stage} {c : Bool} (h : Stage.Next cfg s c s') {row : JobRow}
    (hs : s'.seen? = some row) : s.seen? = some row := by
  cases h with
  | check _ => exact hs
  | checked _ _ => exact hs
  | refused _ _ => cases hs
  | work _ => cases hs
  | worked _ => cases hs
  | caught _ _ _ => cases hs
  | uncaught _ _ _ => cases hs
  | lost _ => cases hs

lemma Stage.Next.running {cfg : Config} {s s' : Stage} {c : Bool} (h : Stage.Next cfg s c s')
    (hs : s'.Running ∨ c = true) : s.Running := by
  cases h with
  | check _ => rcases hs with hs | hs <;> cases hs
  | checked _ _ => rcases hs with hs | hs <;> cases hs
  | refused _ _ => rcases hs with hs | hs <;> cases hs
  | work _ => exact .working _ _
  | worked n => exact .working _ _
  | caught n e _ => exact .working _ _
  | uncaught n e _ => exact .working _ _
  | lost _ => rcases hs with hs | hs <;> cases hs

namespace World

variable (w : World) (key : JobKey)

def begun : ℕ := w.executions.countP fun e => e.key = key ∧ e.begun

def contacts : ℕ := w.executions.countP fun e => e.key = key ∧ e.contacted

variable {w key}

@[simp] lemma begun_write (k : JobKey) (row : Option JobRow) : (w.write k row).begun key = w.begun key := rfl

lemma begun_spawn (e : Execution) :
    (w.spawn e).begun key = w.begun key + if e.key = key ∧ e.begun = true then 1 else 0 := by
  simp [begun, spawn, List.countP_append, List.countP_singleton]

/-- A change of an execution that has begun no job counts no more than before. -/
lemma begun_put {i : ℕ} {e e' : Execution} (hi : w.executions[i]? = some e) (hk : e'.key = e.key)
    (hb : e'.begun = e.begun) : (w.put i e').begun key = w.begun key := by
  obtain ⟨hlt, rfl⟩ := List.getElem?_eq_some_iff.mp hi
  have hsame : (decide (e'.key = key ∧ e'.begun = true)) = decide (w.executions[i].key = key ∧ w.executions[i].begun = true) := by
    rw [hk, hb]
  have hpos := List.countP_pos_iff (p := fun e : Execution => decide (e.key = key ∧ e.begun = true)) (l := w.executions)
  rw [begun, put, List.countP_set hlt, hsame, begun]
  split_ifs with h
  · have := hpos.mpr ⟨_, List.getElem_mem hlt, h⟩
    omega
  · omega

lemma begun_start {i : ℕ} {e e' : Execution} (hi : w.executions[i]? = some e) (hk : e'.key = e.key)
    (hb : e.begun = false) (hb' : e'.begun = true) :
    (w.put i e').begun key = w.begun key + if e.key = key then 1 else 0 := by
  obtain ⟨hlt, rfl⟩ := List.getElem?_eq_some_iff.mp hi
  rw [begun, put, List.countP_set hlt, begun]
  simp [hk, hb, hb']

end World

/-- What holds of the attempts in every run. -/
structure Counted (w : World) : Prop where
  unwritten : ∀ e ∈ w.executions, ∀ seen, e.stage.seen? = some seen →
    e.begun = false ∧ seen.attempts ≤ w.begun e.key ∧ e.key.manager ≠ .repair
  running : ∀ e ∈ w.executions, e.stage.Running → e.begun = true
  contacted : ∀ e ∈ w.executions, e.contacted = true → e.begun = true
  missing : ∀ key, w.rows key = none → w.begun key = 0
  rows : ∀ key row, w.rows key = some row →
    row.attempts ≤ w.begun key ∧ (key.manager = .repair → row.attempts = w.begun key)

section Steps

variable {cfg : Config} {w w' : World}

lemma counted_empty : Counted World.empty where
  unwritten := by simp [World.empty]
  running := by simp [World.empty]
  contacted := by simp [World.empty]
  missing _ _ := rfl
  rows key row h := by cases h

lemma Counted.spawn (h : Counted w) {e : Execution} (hb : e.begun = false) (hc : e.contacted = false)
    (hs : ¬e.stage.Running) (hseen : ∀ seen, e.stage.seen? = some seen →
      seen.attempts ≤ w.begun e.key ∧ e.key.manager ≠ .repair) : Counted (w.spawn e) := by
  have hcount : ∀ key, (w.spawn e).begun key = w.begun key := fun key => by simp [World.begun_spawn, hb]
  constructor
  · intro f hf seen hfs
    rw [hcount]
    rcases List.mem_append.mp hf with hf | hf
    · exact h.unwritten f hf seen hfs
    · cases List.mem_singleton.mp hf
      exact ⟨hb, hseen seen hfs⟩
  · intro f hf hfr
    rcases List.mem_append.mp hf with hf | hf
    · exact h.running f hf hfr
    · cases List.mem_singleton.mp hf
      exact absurd hfr hs
  · intro f hf hfc
    rcases List.mem_append.mp hf with hf | hf
    · exact h.contacted f hf hfc
    · cases List.mem_singleton.mp hf
      cases hc.symm.trans hfc
  · intro key hkey
    rw [hcount]
    exact h.missing key hkey
  · intro key row hrow
    rw [hcount]
    exact h.rows key row hrow

/-- A row may be rewritten with the same attempts. -/
lemma Counted.write (h : Counted w) {k : JobKey} {row row' : JobRow} (hrow : w.rows k = some row)
    (hn : row'.attempts = row.attempts) : Counted (w.write k (some row')) where
  unwritten := h.unwritten
  running := h.running
  contacted := h.contacted
  missing key hkey := by
    simp only [World.write, Function.update_apply] at hkey
    split_ifs at hkey
    exact h.missing key hkey
  rows key r hr := by
    simp only [World.write, Function.update_apply] at hr
    split_ifs at hr with hk
    · cases hr
      rw [hk, hn]
      exact h.rows k row hrow
    · exact h.rows key r hr

lemma Counted.put (h : Counted w) {i : ℕ} {e e' : Execution} (hi : w.executions[i]? = some e) (hk : e'.key = e.key)
    (hb : e'.begun = e.begun) (hseen : ∀ seen, e'.stage.seen? = some seen → e.stage.seen? = some seen)
    (hr : e'.stage.Running → e.begun = true) (hc : e'.contacted = true → e.begun = true) : Counted (w.put i e') := by
  have hmem : e ∈ w.executions := List.mem_of_getElem? hi
  have hcount : ∀ key, (w.put i e').begun key = w.begun key := fun key => World.begun_put hi hk hb
  constructor
  · intro f hf seen hfs
    rw [hcount]
    rcases List.mem_or_eq_of_mem_set hf with hf | rfl
    · exact h.unwritten f hf seen hfs
    · rw [hk, hb]
      exact h.unwritten e hmem seen (hseen seen hfs)
  · intro f hf hfr
    rcases List.mem_or_eq_of_mem_set hf with hf | rfl
    · exact h.running f hf hfr
    · exact hb.trans (hr hfr)
  · intro f hf hfc
    rcases List.mem_or_eq_of_mem_set hf with hf | rfl
    · exact h.contacted f hf hfc
    · exact hb.trans (hc hfc)
  · intro key hkey
    rw [hcount]
    exact h.missing key hkey
  · intro key row hrow
    rw [hcount]
    exact h.rows key row hrow

/-- The end of an execution writes the status of the row. -/
lemma Counted.finish (h : Counted w) {i : ℕ} {e : Execution} (hi : w.executions[i]? = some e) {row : JobRow}
    (hrow : w.rows e.key = some row) (status : JobStatus) :
    Counted ((w.write e.key (some { row with status := status })).put i { e with stage := .ended }) := by
  have hwritten : Counted (w.write e.key (some { row with status := status })) := h.write hrow rfl
  apply hwritten.put hi
  · rfl
  · rfl
  · intro seen hs
    cases hs
  · intro hr
    cases hr
  · exact h.contacted e (List.mem_of_getElem? hi)

/-- A world in which one execution more of a job has begun, and its row counts one attempt more at most. -/
lemma Counted.begin (h : Counted w) {k : JobKey} {row row' : JobRow} (hrow : w.rows k = some row)
    (hbegun : ∀ key, w'.begun key = w.begun key + if key = k then 1 else 0)
    (hrows : w'.rows = Function.update w.rows k (some row')) (hn : row'.attempts ≤ w.begun k + 1)
    (hlocked : k.manager = .repair → row'.attempts = row.attempts + 1)
    (hnew : ∀ e ∈ w'.executions, e ∈ w.executions ∨ e.begun = true ∧ e.stage.seen? = none) : Counted w' where
  unwritten e he seen hs := by
    rcases hnew e he with hold | ⟨-, hnone⟩
    · obtain ⟨hb, hle, hm⟩ := h.unwritten e hold seen hs
      exact ⟨hb, hle.trans (by rw [hbegun]; omega), hm⟩
    · cases hnone.symm.trans hs
  running e he hr := by
    rcases hnew e he with hold | ⟨hb, -⟩
    · exact h.running e hold hr
    · exact hb
  contacted e he hc := by
    rcases hnew e he with hold | ⟨hb, -⟩
    · exact h.contacted e hold hc
    · exact hb
  missing key hkey := by
    rw [hrows, Function.update_apply] at hkey
    split_ifs at hkey with hk
    rw [hbegun, if_neg hk]
    exact h.missing key hkey
  rows key r hr := by
    rw [hrows, Function.update_apply] at hr
    rw [hbegun]
    split_ifs at hr ⊢ with hk
    · cases hr
      subst hk
      exact ⟨hn, fun hm => by rw [hlocked hm, (h.rows key row hrow).2 hm]⟩
    · exact h.rows key r hr

lemma Counted.step (h : Counted w) {m : Move} (hstep : Step cfg w m w') : Counted w' := by
  cases hstep with
  | @create key hnone =>
    refine { h with missing := fun k hk => ?_, rows := fun k r hr => ?_ }
    · simp only [World.write, Function.update_apply] at hk
      split_ifs at hk
      exact h.missing k hk
    · simp only [World.write, Function.update_apply] at hr
      rw [World.begun_write]
      split_ifs at hr with hk
      · cases hr
        subst hk
        rw [h.missing k hnone]
        exact ⟨le_rfl, fun _ => rfl⟩
      · exact h.rows k r hr
  | @deliver ticket hrow hopen =>
    apply h.spawn rfl rfl
    · intro hr
      cases hr
    · intro seen hs
      cases hs
      refine ⟨(h.rows _ _ hrow).1, ?_⟩
      cases ticket <;> exact Manager.noConfusion
  | @enterRepair job db db' b hrow hjob hrun =>
    obtain ⟨row', hrow', hentered⟩ := beginJob_row hjob hrun
    rw [hrow']
    cases hentered with
    | returned _ =>
      have hwritten : Counted (w.write (repairKey job) (some (repairRow job))) := h.write hrow rfl
      apply hwritten.spawn rfl rfl
      · intro hr
        cases hr
      · intro seen hs
        cases hs
    | raised x _ =>
      have hwritten : Counted (w.write (repairKey job) (some ⟨.failed, job.attempts⟩)) := h.write hrow rfl
      apply hwritten.spawn rfl rfl
      · intro hr
        cases hr
      · intro seen hs
        cases hs
    | running x _ hx =>
      obtain ⟨hle, -⟩ := h.rows _ _ hrow
      apply h.begin hrow
      · intro key
        rw [World.begun_spawn, World.begun_write]
        simp [opened, eq_comm]
      · rfl
      · exact Nat.succ_le_succ hle
      · exact fun _ => rfl
      · intro f hf
        rcases List.mem_append.mp hf with hf | hf
        · exact Or.inl hf
        · cases List.mem_singleton.mp hf
          exact Or.inr ⟨rfl, rfl⟩
  | @advance i e c stage hi hnext =>
    have hmem := List.mem_of_getElem? hi
    apply h.put hi
    · rfl
    · rfl
    · exact fun seen hs => hnext.seen hs
    · exact fun hr => h.running e hmem (hnext.running (Or.inl hr))
    · intro hc
      rcases Bool.or_eq_true_iff.mp hc with hc | hc
      · exact h.contacted e hmem hc
      · exact h.running e hmem (hnext.running (Or.inr hc))
  | @start i e seen row work hi hs hrow =>
    have hmem := List.mem_of_getElem? hi
    have hseen : e.stage.seen? = some seen := by rw [hs]; rfl
    obtain ⟨hb, hle, hm⟩ := h.unwritten e hmem seen hseen
    apply h.begin hrow
    · intro key
      have hi' : (w.write e.key (some (seen.begin row))).executions[i]? = some e := hi
      have hcount := @World.begun_start _ key i e { e with stage := .working (seen.attempts + 1) (work.script cfg), begun := true }
        hi' rfl hb rfl
      have hsame : (e.key = key) = (key = e.key) := propext eq_comm
      rw [hcount, World.begun_write]
      simp only [hsame]
    · rfl
    · exact Nat.succ_le_succ hle
    · exact fun hrepair => absurd hrepair hm
    · intro f hf
      rcases List.mem_or_eq_of_mem_set hf with hf | rfl
      · exact Or.inl hf
      · exact Or.inr ⟨rfl, rfl⟩
  | @succeed i e row hi hs hrow => exact h.finish hi hrow .succeeded
  | @fail i n m e row hi hs hrow _ => exact h.finish hi hrow _

end Steps

/-- The worlds that the drivers can reach from one another, in any order of steps. -/
def Reaches (cfg : Config) : World → World → Prop := Relation.ReflTransGen fun w w' => ∃ m, Step cfg w m w'

lemma Counted.reaches {cfg : Config} {w w' : World} (h : Counted w) (hr : Reaches cfg w w') : Counted w' := by
  induction hr with
  | refl => exact h
  | tail _ hstep ih =>
    obtain ⟨m, hm⟩ := hstep
    exact ih.step hm

lemma contacts_le_begun {w : World} (h : Counted w) (key : JobKey) : w.contacts key ≤ w.begun key := by
  apply List.countP_mono_left
  intro e he hc
  obtain ⟨hk, hc⟩ := of_decide_eq_true hc
  exact decide_eq_true ⟨hk, h.contacted e he hc⟩

def sampleConfig : Config := ⟨1, 3, Rebalance.one_copy_pos, Rebalance.three_attempts_pos⟩

def sampleRepair : RepairJob :=
  { repairId := ⟨3⟩, versionId := ⟨1⟩, sourceNodeId := "a", targetNodeId := "b", reason := "under-replicated" }

end Vault.Jobs
