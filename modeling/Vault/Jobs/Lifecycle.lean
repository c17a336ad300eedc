import Vault.Jobs.Counting

/-! The budget of a job. As long as the executions of one job do not overlap, and one that died is delivered again only
while attempts are left, no job uses more attempts than it has, at most that many executions contact a node, and a job
that has succeeded stays so. Executions may be lost at any point, and those of different jobs may interleave freely. -/

namespace Vault.Jobs

open Vault.Common Vault.Metadata Vault.Storage Vault.Lib Vault.Lib.Script Vault.Lib.Transaction

/-- What the row of a job shows while an execution of it goes on. -/
inductive Stage.Agrees (maxAttempts : ℕ) : Stage → JobRow → Prop
  | entering {seen : JobRow} (rest : Job Work) : seen.attempts < maxAttempts → seen.status ≠ .succeeded →
      Agrees maxAttempts (.entering seen rest) seen
  | starting {seen : JobRow} (work : Work) : seen.attempts < maxAttempts → seen.status ≠ .succeeded →
      Agrees maxAttempts (.starting seen work) seen
  | working (n : ℕ) (rest : Job Unit) : Agrees maxAttempts (.working n rest) ⟨.running, n⟩
  | succeeding (n : ℕ) : Agrees maxAttempts .succeeding ⟨.running, n⟩
  | failing (n : ℕ) : Agrees maxAttempts (.failing n) ⟨.running, n⟩

lemma Stage.Next.agrees {cfg : Config} {s s' : Stage} {c : Bool} {row : JobRow} (h : Stage.Next cfg s c s')
    (hs : s' ≠ .ended) (ha : s.Agrees cfg.maxAttempts row) : s'.Agrees cfg.maxAttempts row := by
  cases h with
  | check _ =>
    cases ha with
    | entering _ hn hf => exact .entering _ hn hf
  | checked _ _ =>
    cases ha with
    | entering _ hn hf => exact .starting _ hn hf
  | refused _ _ => exact absurd rfl hs
  | work _ =>
    cases ha
    exact .working _ _
  | worked _ =>
    cases ha
    exact .succeeding _
  | caught _ _ _ =>
    cases ha
    exact .failing _
  | uncaught _ _ _ => exact absurd rfl hs
  | lost _ => exact absurd rfl hs

lemma Stage.Next.live {cfg : Config} {s s' : Stage} {c : Bool} (h : Stage.Next cfg s c s') (hs : s' ≠ .ended) :
    s ≠ .ended := by
  rintro rfl
  cases h
  exact hs rfl

/-- Within the budget, and with an attempt left as long as the job is waiting. -/
def JobRow.Within (maxAttempts : ℕ) (row : JobRow) : Prop :=
  row.attempts ≤ maxAttempts ∧ (row.status = .pending → row.attempts < maxAttempts)

/-- No execution of the job goes on, and if the last one has died, an attempt is left. -/
def World.Ready (maxAttempts : ℕ) (w : World) (key : JobKey) : Prop :=
  (∀ e ∈ w.executions, e.key = key → e.stage = .ended) ∧
    ∀ row, w.rows key = some row → row.status = .running → row.attempts < maxAttempts

/-- The deliveries meet a job that is ready; all other steps may come at any time. -/
def Orderly (cfg : Config) (w : World) : Move → Prop
  | .deliver key => w.Ready cfg.maxAttempts key
  | .enterRepair repairId => w.Ready cfg.maxAttempts ⟨.repair, repairId⟩
  | _ => True

structure Ordered (cfg : Config) (w : World) : Prop where
  counted : Counted w
  rows : ∀ key row, w.rows key = some row → row.attempts = w.begun key ∧ row.Within cfg.maxAttempts
  alone : ∀ (i j : ℕ) (e f : Execution), w.executions[i]? = some e → w.executions[j]? = some f → e.key = f.key → e.stage ≠ .ended →
    f.stage ≠ .ended → i = j
  agree : ∀ (i : ℕ) (e : Execution), w.executions[i]? = some e → e.stage ≠ .ended →
    ∃ row, w.rows e.key = some row ∧ e.stage.Agrees cfg.maxAttempts row

section Steps

variable {cfg : Config} {w w' : World} {k : JobKey}

lemma ordered_empty : Ordered cfg World.empty where
  counted := counted_empty
  rows key row h := by cases h
  alone i j e f h := by cases h
  agree i e h := by cases h

/-- A step that concerns one job. -/
lemma Ordered.change (h : Ordered cfg w) (hcounted : Counted w') {r : Option JobRow}
    (hrows : w'.rows = Function.update w.rows k r) (hbegun : ∀ key, key ≠ k → w'.begun key = w.begun key)
    (hrow : ∀ row, r = some row → row.attempts = w'.begun k ∧ row.Within cfg.maxAttempts)
    (hothers : ∀ (i : ℕ) (e : Execution), w'.executions[i]? = some e → e.key ≠ k → w.executions[i]? = some e)
    (hown : ∀ (i : ℕ) (e : Execution), w'.executions[i]? = some e → e.key = k → e.stage ≠ .ended →
      (∃ row, r = some row ∧ e.stage.Agrees cfg.maxAttempts row) ∧
        ∀ (j : ℕ) (f : Execution), w'.executions[j]? = some f → f.key = k → f.stage ≠ .ended → i = j) : Ordered cfg w' where
  counted := hcounted
  rows key row hr := by
    rw [hrows, Function.update_apply] at hr
    split_ifs at hr with hk
    · rw [hk]
      exact hrow row hr
    · rw [hbegun key hk]
      exact h.rows key row hr
  alone i j e f hi hj hkey he hf := by
    by_cases hk : e.key = k
    · exact (hown i e hi hk he).2 j f hj (hkey.symm.trans hk) hf
    · exact h.alone i j e f (hothers i e hi hk) (hothers j f hj fun hfk => hk (hkey.trans hfk)) hkey he hf
  agree i e hi he := by
    rw [hrows, Function.update_apply]
    split_ifs with hk
    · exact (hown i e hi hk he).1
    · exact h.agree i e (hothers i e hi hk) he

/-- A job whose row is not final and that is ready has an attempt left. -/
lemma attempts_lt (h : Ordered cfg w) (hready : w.Ready cfg.maxAttempts k) {row : JobRow} (hrow : w.rows k = some row)
    (hopen : ¬Final cfg.maxAttempts row) : row.attempts < cfg.maxAttempts ∧ row.status ≠ .succeeded := by
  obtain ⟨-, -, hpending⟩ := h.rows k row hrow
  have hfailed : row.status = .failed → row.attempts < cfg.maxAttempts := by
    intro hs
    by_contra hle
    exact hopen (Or.inr ⟨hs, not_lt.mp hle⟩)
  have hsucceeded : row.status ≠ .succeeded := fun hs => hopen (Or.inl hs)
  refine ⟨?_, hsucceeded⟩
  cases hs : row.status with
  | pending => exact hpending hs
  | running => exact hready.2 row hrow hs
  | succeeded => exact absurd hs hsucceeded
  | failed => exact hfailed hs

/-- After a delivery, the new execution is the only one of its job that goes on. -/
lemma Ordered.entry (h : Ordered cfg w) (hready : w.Ready cfg.maxAttempts k) (hcounted : Counted w') {row : JobRow}
    {e : Execution} (hrows : w'.rows = Function.update w.rows k (some row))
    (hexecutions : w'.executions = w.executions ++ [e]) (hkey : e.key = k)
    (hrow : row.attempts = w'.begun k ∧ row.Within cfg.maxAttempts)
    (hagree : e.stage ≠ .ended → e.stage.Agrees cfg.maxAttempts row) : Ordered cfg w' := by
  have hsplit : ∀ (i : ℕ) (f : Execution), w'.executions[i]? = some f →
      w.executions[i]? = some f ∨ i = w.executions.length ∧ f = e := by
    intro i f hf
    rw [hexecutions, List.getElem?_append] at hf
    split_ifs at hf with hi
    · exact Or.inl hf
    · rw [List.getElem?_singleton] at hf
      split_ifs at hf with hzero
      cases hf
      exact Or.inr ⟨by omega, rfl⟩
  have hdead : ∀ (i : ℕ) (f : Execution), w.executions[i]? = some f → f.key = k → f.stage = .ended :=
    fun i f hf hfk => hready.1 f (List.mem_of_getElem? hf) hfk
  apply h.change hcounted hrows
  · intro key hk
    rw [World.begun, hexecutions, List.countP_append, List.countP_singleton, World.begun]
    simp [hkey, Ne.symm hk]
  · rintro row' hr
    cases hr
    exact hrow
  · intro i f hf hfk
    rcases hsplit i f hf with hold | ⟨-, rfl⟩
    · exact hold
    · exact absurd hkey hfk
  · intro i f hf hfk hlive
    rcases hsplit i f hf with hold | ⟨rfl, rfl⟩
    · exact absurd (hdead i f hold hfk) hlive
    · refine ⟨⟨row, rfl, hagree hlive⟩, fun j g hg hgk hglive => ?_⟩
      rcases hsplit j g hg with hold | ⟨rfl, -⟩
      · exact absurd (hdead j g hold hgk) hglive
      · rfl

/-- A step of an execution that goes on. -/
lemma Ordered.own (h : Ordered cfg w) (hcounted : Counted w') {i : ℕ} {e e' : Execution} {row : JobRow}
    (hi : w.executions[i]? = some e) (hlive : e.stage ≠ .ended) (hexecutions : w'.executions = w.executions.set i e')
    (hkey : e'.key = e.key) (hrows : w'.rows = Function.update w.rows e.key (some row))
    (hbegun : ∀ key, key ≠ e.key → w'.begun key = w.begun key)
    (hrow : row.attempts = w'.begun e.key ∧ row.Within cfg.maxAttempts)
    (hagree : e'.stage ≠ .ended → e'.stage.Agrees cfg.maxAttempts row) : Ordered cfg w' := by
  have hsplit : ∀ (j : ℕ) (f : Execution), w'.executions[j]? = some f →
      j ≠ i ∧ w.executions[j]? = some f ∨ j = i ∧ f = e' := by
    intro j f hf
    rw [hexecutions, List.getElem?_set] at hf
    split_ifs at hf with hij
    · cases hf
      exact Or.inr ⟨hij.symm, rfl⟩
    · exact Or.inl ⟨Ne.symm hij, hf⟩
  have hdead : ∀ (j : ℕ) (f : Execution), j ≠ i → w.executions[j]? = some f → f.key = e.key → f.stage = .ended := by
    intro j f hj hf hfk
    by_contra hfl
    exact hj (h.alone j i f e hf hi hfk hfl hlive)
  apply h.change hcounted hrows hbegun
  · rintro row' hr
    cases hr
    exact hrow
  · intro j f hf hfk
    rcases hsplit j f hf with ⟨-, hf'⟩ | ⟨-, rfl⟩
    · exact hf'
    · exact absurd hkey hfk
  · intro j f hf hfk hfl
    rcases hsplit j f hf with ⟨hj, hf'⟩ | ⟨rfl, rfl⟩
    · exact absurd (hdead j f hj hf' hfk) hfl
    · refine ⟨⟨row, rfl, hagree hfl⟩, fun l g hg hgk hgl => ?_⟩
      rcases hsplit l g hg with ⟨hl, hg'⟩ | ⟨rfl, -⟩
      · exact absurd (hdead l g hl hg' hgk) hgl
      · rfl

lemma put_self {i : ℕ} {e : Execution} (hi : w.executions[i]? = some e) : w.put i e = w := by
  obtain ⟨hlt, rfl⟩ := List.getElem?_eq_some_iff.mp hi
  rw [World.put, List.set_getElem_self]

lemma update_row {row : JobRow} (hrow : w.rows k = some row) : w.rows = Function.update w.rows k (some row) := by
  rw [← hrow, Function.update_eq_self]

/-- An execution that is about to write its row is the one that the row tells of. -/
lemma Ordered.row_of (h : Ordered cfg w) {i : ℕ} {e : Execution} (hi : w.executions[i]? = some e) {row : JobRow}
    (hrow : w.rows e.key = some row) (hlive : e.stage ≠ .ended) : e.stage.Agrees cfg.maxAttempts row := by
  obtain ⟨row', hrow', hagree⟩ := h.agree i e hi hlive
  cases hrow.symm.trans hrow'
  exact hagree

lemma Ordered.step (h : Ordered cfg w) {m : Move} (horder : Orderly cfg w m) (hstep : Step cfg w m w') :
    Ordered cfg w' := by
  have hcounted := h.counted.step hstep
  cases hstep with
  | @create key hnone =>
    have hother : ∀ (i : ℕ) (e : Execution), w.executions[i]? = some e → e.key = key → e.stage = .ended := by
      rintro i e hi rfl
      by_contra hlive
      obtain ⟨row, hrow, -⟩ := h.agree i e hi hlive
      cases hnone.symm.trans hrow
    apply h.change hcounted (k := key)
    · rfl
    · exact fun _ _ => rfl
    · rintro row hr
      cases hr
      refine ⟨(h.counted.missing key hnone).symm, Nat.zero_le _, fun _ => cfg.maxAttempts_pos⟩
    · exact fun i e hi _ => hi
    · exact fun i e hi hk hlive => absurd (hother i e hi hk) hlive
  | @deliver ticket hrow hopen =>
    obtain ⟨hn, hs⟩ := attempts_lt h horder hrow hopen
    apply h.entry horder hcounted (update_row hrow) rfl rfl
    · rw [World.begun_spawn]
      simpa using h.rows _ _ hrow
    · exact fun _ => .entering _ hn hs
  | @enterRepair job db db' b hrow hjob hrun =>
    obtain ⟨row', hrow', hentered⟩ := beginJob_row hjob hrun
    rw [hrow'] at hcounted ⊢
    have hready : w.Ready cfg.maxAttempts (repairKey job) := horder
    obtain ⟨hcount, hwithin⟩ := h.rows _ _ hrow
    apply h.entry hready hcounted
    · rfl
    · rfl
    · cases b <;> rfl
    · rw [World.begun_spawn, World.begun_write]
      cases hentered with
      | returned _ => exact ⟨by simpa [opened] using hcount, hwithin⟩
      | raised x hopen => exact ⟨by simpa [opened, repairRow] using hcount, hwithin.1, fun hp => by cases hp⟩
      | running x hopen hx =>
        obtain ⟨hn, -⟩ := attempts_lt h hready hrow hopen
        exact ⟨by simpa [opened, repairRow] using hcount, hn, fun hp => by cases hp⟩
    · intro hlive
      cases hentered with
      | returned _ => exact absurd rfl hlive
      | raised x _ => exact absurd rfl hlive
      | running x hopen hx =>
        rw [← hx]
        exact .working _ _
  | @advance i e c stage hi hnext =>
    by_cases hended : e.stage = .ended
    · obtain ⟨key, st, begun, contacted⟩ := e
      obtain rfl : st = .ended := hended
      cases hnext
      simpa [put_self hi] using h
    · obtain ⟨row, hrow, hagree⟩ := h.agree i e hi hended
      apply h.own hcounted hi hended
      · rfl
      · rfl
      · exact update_row hrow
      · exact fun key _ => World.begun_put hi rfl rfl
      · have hcount := @World.begun_put _ e.key i e { e with stage := stage, contacted := e.contacted || c } hi rfl rfl
        rw [hcount]
        exact h.rows _ _ hrow
      · exact fun hlive => hnext.agrees hlive hagree
  | @start i e seen row work hi hs hrow =>
    have hlive : e.stage ≠ .ended := by rw [hs]; exact Stage.noConfusion
    have hagree := h.row_of hi hrow hlive
    rw [hs] at hagree
    cases hagree with
    | starting _ hn hstatus =>
      have hseen : seen.begin seen = ⟨.running, seen.attempts + 1⟩ := by
        unfold JobRow.begin
        split_ifs with hrunning
        · rw [hrunning]
        · rfl
      have hb := (h.counted.unwritten e (List.mem_of_getElem? hi) seen (by rw [hs]; rfl)).1
      have hbegun : ∀ key, ((w.write e.key (some (seen.begin seen))).put i
          { e with stage := .working (seen.attempts + 1) (work.script cfg), begun := true }).begun key =
          (w.write e.key (some (seen.begin seen))).begun key + if e.key = key then 1 else 0 :=
        fun key => @World.begun_start (w.write e.key (some (seen.begin seen))) key i e _ hi rfl hb rfl
      apply h.own hcounted hi hlive
      · rfl
      · rfl
      · rfl
      · intro key hk
        rw [hbegun, if_neg (Ne.symm hk)]
        rfl
      · rw [hbegun, if_pos rfl, World.begun_write, hseen, ← (h.rows _ _ hrow).1]
        exact ⟨rfl, hn, fun hp => by cases hp⟩
      · intro _
        rw [hseen]
        exact .working _ _
  | @succeed i e row hi hs hrow =>
    have hlive : e.stage ≠ .ended := by rw [hs]; exact Stage.noConfusion
    have hbegun : ∀ key, ((w.write e.key (some { row with status := .succeeded })).put i { e with stage := .ended }).begun key =
        (w.write e.key (some { row with status := .succeeded })).begun key :=
      fun key => @World.begun_put (w.write e.key (some { row with status := .succeeded })) key i e _ hi rfl rfl
    obtain ⟨hcount, hle, -⟩ := h.rows _ _ hrow
    apply h.own hcounted hi hlive
    · rfl
    · rfl
    · rfl
    · exact fun key _ => hbegun key
    · rw [hbegun]
      exact ⟨hcount, hle, fun hp => by cases hp⟩
    · exact fun hne => absurd rfl hne
  | @fail i n m e row hi hs hrow hm =>
    have hlive : e.stage ≠ .ended := by rw [hs]; exact Stage.noConfusion
    have hbegun : ∀ key, ((w.write e.key (some (row.fail cfg.maxAttempts m))).put i { e with stage := .ended }).begun key =
        (w.write e.key (some (row.fail cfg.maxAttempts m))).begun key :=
      fun key => @World.begun_put (w.write e.key (some (row.fail cfg.maxAttempts m))) key i e _ hi rfl rfl
    have hagree := h.row_of hi hrow hlive
    rw [hs] at hagree
    cases hagree with
    | failing =>
      obtain rfl : m = n := hm.elim id id
      obtain ⟨hcount, hle, -⟩ := h.rows _ _ hrow
      apply h.own hcounted hi hlive
      · rfl
      · rfl
      · rfl
      · exact fun key _ => hbegun key
      · rw [hbegun]
        refine ⟨hcount, hle, fun hp => ?_⟩
        simp only [JobRow.fail] at hp ⊢
        split_ifs at hp with hlast
        exact not_le.mp hlast
      · exact fun hne => absurd rfl hne

lemma Ordered.succeeded_step (h : Ordered cfg w) {m : Move} (hstep : Step cfg w m w') {row : JobRow}
    (hrow : w.rows k = some row) (hs : row.status = .succeeded) : w'.rows k = some row := by
  -- Only an execution that goes on writes the row of its job, and then the row does not show `SUCCEEDED`.
  have hwriter : ∀ (i : ℕ) (e : Execution), w.executions[i]? = some e → e.stage ≠ .ended → e.key ≠ k := by
    rintro i e hi hlive rfl
    have hagree := h.row_of hi hrow hlive
    generalize e.stage = stage at hagree
    cases hagree with
    | entering _ _ hne => exact hne hs
    | starting _ _ hne => exact hne hs
    | working _ _ => cases hs
    | succeeding _ => cases hs
    | failing _ => cases hs
  have hlive : ∀ {e : Execution} {s : Stage}, e.stage = s → s ≠ .ended → e.stage ≠ .ended := by
    rintro e s rfl hne
    exact hne
  cases hstep with
  | @create key hnone =>
    have hne : k ≠ key := by
      rintro rfl
      cases hnone.symm.trans hrow
    exact (Function.update_of_ne hne _ _).trans hrow
  | deliver _ _ => exact hrow
  | @enterRepair job db db' b hjobrow hjob hrun =>
    by_cases hk : k = repairKey job
    · subst hk
      cases hjobrow.symm.trans hrow
      obtain ⟨row', hrow', hentered⟩ := beginJob_row hjob hrun
      have hfinal : Final cfg.maxAttempts (repairRow job) := Or.inl hs
      cases hentered with
      | returned _ => exact (Function.update_self _ _ _).trans hrow'
      | raised _ hopen => exact absurd hfinal hopen
      | running _ hopen _ => exact absurd hfinal hopen
    · exact (Function.update_of_ne hk _ _).trans hrow
  | advance _ _ => exact hrow
  | start hi hstage _ =>
    have hne := hwriter _ _ hi (hlive hstage Stage.noConfusion)
    exact (Function.update_of_ne (Ne.symm hne) _ _).trans hrow
  | succeed hi hstage _ =>
    have hne := hwriter _ _ hi (hlive hstage Stage.noConfusion)
    exact (Function.update_of_ne (Ne.symm hne) _ _).trans hrow
  | fail hi hstage _ _ =>
    have hne := hwriter _ _ hi (hlive hstage Stage.noConfusion)
    exact (Function.update_of_ne (Ne.symm hne) _ _).trans hrow

end Steps

/-- The worlds that the drivers can reach from one another by orderly steps. -/
def OrderlyReaches (cfg : Config) : World → World → Prop :=
  Relation.ReflTransGen fun w w' => ∃ m, Orderly cfg w m ∧ Step cfg w m w'

lemma Ordered.reaches {cfg : Config} {w w' : World} (h : Ordered cfg w) (hr : OrderlyReaches cfg w w') :
    Ordered cfg w' := by
  induction hr with
  | refl => exact h
  | tail _ hstep ih =>
    obtain ⟨m, horder, hm⟩ := hstep
    exact ih.step horder hm

lemma Ordered.succeeded_reaches {cfg : Config} {w w' : World} (h : Ordered cfg w) (hr : OrderlyReaches cfg w w')
    {key : JobKey} {row : JobRow} (hrow : w.rows key = some row) (hs : row.status = .succeeded) :
    w'.rows key = some row := by
  induction hr with
  | refl => exact hrow
  | tail hr' hstep ih =>
    obtain ⟨m, -, hm⟩ := hstep
    have hkept : Ordered cfg _ := h.reaches hr'
    exact hkept.succeeded_step hm ih hs

/-- In an orderly run no job uses more than its attempts, no more executions of it than that contact a node, and the row
of a job that has succeeded does not change any more. -/
theorem jobs_keep_to_their_budget (cfg : Config) (w w' : World) (h : OrderlyReaches cfg World.empty w)
    (h' : OrderlyReaches cfg w w') (key : JobKey) (row : JobRow) (hrow : w.rows key = some row) :
    row.attempts ≤ cfg.maxAttempts ∧ w.contacts key ≤ cfg.maxAttempts ∧
      (row.status = .succeeded → w'.rows key = some row) := by
  have hordered := ordered_empty.reaches h
  obtain ⟨hcount, hle, -⟩ := hordered.rows key row hrow
  have hcontacts := contacts_le_begun hordered.counted key
  exact ⟨hle, by omega, hordered.succeeded_reaches h' hrow⟩

theorem sample_repair_within_budget :
    ∃ w row, OrderlyReaches sampleConfig World.empty w ∧ w.rows (repairKey sampleRepair) = some row ∧
      row.attempts ≤ 3 ∧ w.contacts (repairKey sampleRepair) ≤ 3 := by
  have hjob : sampleDb.repairJob? ⟨3⟩ = some sampleRepair := by decide
  obtain ⟨b, db', hrun⟩ : ∃ b db', (Repair.beginJob 3 ⟨3⟩).run sampleDb = .ok (b, db') := ⟨_, _, rfl⟩
  obtain ⟨row, hrow, -⟩ := beginJob_row hjob hrun
  have hcreated : Step sampleConfig World.empty (.create (repairKey sampleRepair))
      (World.empty.write (repairKey sampleRepair) (some {})) := .create rfl
  have hpending : (World.empty.write (repairKey sampleRepair) (some {})).rows (repairKey sampleRepair) =
      some (repairRow sampleRepair) := by
    simp [World.write, repairRow, sampleRepair]
  have hready : (World.empty.write (repairKey sampleRepair) (some {})).Ready 3 (repairKey sampleRepair) := by
    refine ⟨by simp [World.write, World.empty], fun row hr hs => ?_⟩
    cases hpending.symm.trans hr
    cases hs
  have hentered : Step sampleConfig _ (.enterRepair ⟨3⟩) _ := .enterRepair hpending hjob hrun
  have hreach : OrderlyReaches sampleConfig World.empty _ :=
    .tail (.single ⟨.create _, trivial, hcreated⟩) ⟨.enterRepair _, hready, hentered⟩
  have hrow' := (Function.update_self (repairKey sampleRepair) ((db'.repairJob? ⟨3⟩).map repairRow)
    (World.empty.write (repairKey sampleRepair) (some {})).rows).trans hrow
  obtain ⟨hattempts, hcontacts, -⟩ := jobs_keep_to_their_budget sampleConfig _ _ hreach .refl (repairKey sampleRepair) row hrow'
  exact ⟨_, row, hreach, hrow', hattempts, hcontacts⟩

end Vault.Jobs
