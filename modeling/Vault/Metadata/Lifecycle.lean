import Vault.Metadata.CurrentVersion

/-! Object states along a run. `transition_object_state` enforces the lifecycle table, while
`commit_version` writes `ACTIVE` without looking at the state it replaces: a version prepared
before a deletion can be committed after it. -/

namespace Vault.Metadata

open Vault.Common Vault.Lib Vault.Lib.Transaction Vault.Lib.Transaction.Tx

def StatesFollow (db db' : Db) : Prop :=
  ∀ o ∈ db.objects, ∀ p ∈ db'.objects, p.objectId = o.objectId →
    p.state = o.state ∨ p.state ∈ objectStateTransitions o.state

def LifecycleKept (db : Db) (ops : List Op) : Prop :=
  ∀ e ∈ history db ops, StatesFollow e.before e.after

instance (db db' : Db) : Decidable (StatesFollow db db') :=
  inferInstanceAs (Decidable (∀ o ∈ db.objects, ∀ p ∈ db'.objects, p.objectId = o.objectId →
    p.state = o.state ∨ p.state ∈ objectStateTransitions o.state))

instance (db : Db) (ops : List Op) : Decidable (LifecycleKept db ops) :=
  inferInstanceAs (Decidable (∀ e ∈ history db ops, StatesFollow e.before e.after))

def NeverRevived (db : Db) (ops : List Op) : Prop :=
  ∀ pre mid post, ops = pre ++ mid ++ post →
    ∀ o ∈ (run db pre).objects, o.state ≠ .active →
      ∀ p ∈ (run db (pre ++ mid)).objects, p.objectId = o.objectId → p.state ≠ .active

def Revives (db : Db) : Op → Prop
  | .commitVersion _ i e => ∃ expected v obj current, validateExpectedVersion e = .ok expected ∧
      i = .value v.versionId ∧ db.version? v.versionId = some v ∧ db.object? v.objectId = some obj ∧
      CurrentNumber db obj current ∧ expectedMatches expected current ∧ v.state = .preparing ∧
      (∀ n ∈ current, n < v.versionNumber) ∧ obj.state ≠ .active
  | _ => False

lemma StatesFollow.refl {db : Db} (h : VersionInv db) : StatesFollow db db := by
  intro o ho p hp he
  rw [Table.eq_of_key h.objectIds hp ho he]
  exact Or.inl rfl

lemma StatesFollow.frame {db db' : Db} (h : VersionInv db) (ho : db'.objects = db.objects) :
    StatesFollow db db' := by
  intro o hm p hp
  rw [ho] at hp
  exact StatesFollow.refl h o hm p hp

lemma StatesFollow.amend {db : Db} (h : VersionInv db) {obj : Object} (hobj : obj ∈ db.objects)
    {f : Object → Object} (hf : ∀ o, (f o).objectId = o.objectId)
    (hs : (f obj).state = obj.state ∨ (f obj).state ∈ objectStateTransitions obj.state) :
    StatesFollow db (db.amendObject obj.objectId f) := by
  intro o ho p hp he
  obtain ⟨q, hq, rfl⟩ := Table.mem_amend.mp hp
  split_ifs at he ⊢ with hk
  · rw [hf] at he
    obtain rfl := Table.eq_of_key h.objectIds hq ho he
    obtain rfl := Table.eq_of_key h.objectIds hq hobj hk
    exact hs
  · rw [Table.eq_of_key h.objectIds hq ho he]
    exact Or.inl rfl

lemma Changed.statesFollow {db db' : Db} {op : Op} (hc : Changed db op db') (h : VersionInv db)
    (hr : ¬Revives db op) : StatesFollow db db' := by
  cases hc with
  | createObject hfree =>
    intro o ho p hp he
    simp only [insertObject, List.mem_append, List.mem_singleton] at hp
    rcases hp with hp | rfl
    · exact StatesFollow.refl h o ho p hp he
    · exact absurd (h.freshObject o ho) (by simp [← he, Db.newUuid])
  | @commitVersion now e v obj expected current he hv hobj hcur hm hs hlt =>
    have hact : obj.state = .active := by
      by_contra hne
      exact hr ⟨expected, v, obj, current, he, rfl, hv, hobj, hcur, hm, hs, hlt, hne⟩
    rw [← object?_id hobj]
    have hfollow : StatesFollow db (db.amendObject obj.objectId (Object.serve v.versionId)) :=
      StatesFollow.amend h (Table.lookup_mem hobj) (Object.serve_objectId _) (Or.inl hact.symm)
    exact hfollow
  | @transitionObjectState obj state hobj ht =>
    exact StatesFollow.amend h (Table.lookup_mem hobj) (Object.enter_objectId _) (Or.inr ht)
  | @createReplicas ns versionId nodeIds =>
    exact .frame h (insertReplicas_frame versionId nodeIds db).1
  | nodes hn =>
    obtain ⟨nodes, k, -, rfl⟩ := hn
    exact .frame h rfl
  | _ => exact .frame h rfl

lemma step_commitVersion {db : Db} {now : Time} {e : Arg (Option ℤ)} {v : Version} {obj : Object}
    {expected current : Option ℕ} (he : validateExpectedVersion e = .ok expected)
    (hv : db.version? v.versionId = some v) (hobj : db.object? v.objectId = some obj)
    (hc : CurrentNumber db obj current) (hm : expectedMatches expected current)
    (hs : v.state = .preparing) (hlt : ∀ n ∈ current, n < v.versionNumber) :
    step db (.commitVersion now (.value v.versionId) e) =
      (db.amendVersion v.versionId (Version.commit now)).amendObject v.objectId
        (Object.serve v.versionId) := by
  have hok : (commitVersion now (.value v.versionId) e).run db = .ok (v.commit now,
      (db.amendVersion v.versionId (Version.commit now)).amendObject obj.objectId
        (Object.serve v.versionId)) := by
    simp only [commitVersion, run_bind, run_check, run_read, run_demand, run_lockObject,
      run_currentVersionNumber, run_require, run_write, run_pure]
    exact ⟨expected, db, ⟨he, rfl⟩, v.versionId, db, ⟨rfl, rfl⟩, db, db, rfl, v, db, ⟨hv, rfl⟩, obj, db,
      ⟨hobj, rfl⟩, current, db, ⟨hc, rfl⟩, (), db, ⟨hm, rfl⟩, (), db, ⟨hs, rfl⟩, (), db, ⟨hlt, rfl⟩,
      (), _, rfl, (), _, rfl, rfl⟩
  rw [object?_id hobj] at hok
  simp only [step, Op.event, Op.exec, answer_ok hok]

lemma not_statesFollow_of_revives {db : Db} {op : Op} (hr : Revives db op) :
    ¬StatesFollow db (step db op) := by
  cases op with
  | commitVersion now i e =>
    obtain ⟨expected, v, obj, current, he, rfl, hv, hobj, hc, hm, hs, hlt, hne⟩ := hr
    rw [step_commitVersion he hv hobj hc hm hs hlt]
    intro hf
    have hom := Table.lookup_mem hobj
    have hserved : obj.serve v.versionId ∈
        Table.amend Object.objectId v.objectId (Object.serve v.versionId) db.objects :=
      Table.mem_amend.mpr ⟨obj, hom, if_pos (object?_id hobj)⟩
    rcases hf obj hom _ hserved rfl with hst | hst
    · exact hne hst.symm
    · exact active_not_mem_objectStateTransitions _ hst
  | _ => cases hr

lemma not_active_of_follow {s t : ObjectState} (h : t = s ∨ t ∈ objectStateTransitions s)
    (hs : s ≠ .active) : t ≠ .active := by
  cases s <;> cases t <;> simp_all [objectStateTransitions]

lemma neverRevived_of_kept {db : Db} {ops : List Op} (h : VersionInv db) (hk : LifecycleKept db ops) :
    ∀ o ∈ db.objects, o.state ≠ .active →
      ∀ p ∈ (run db ops).objects, p.objectId = o.objectId → p.state ≠ .active := by
  induction ops generalizing db with
  | nil =>
    intro o ho hne p hp he
    rw [Table.eq_of_key h.objectIds hp ho he]
    exact hne
  | cons op ops ih =>
    intro o ho hne p hp he
    have hc := step_changed db op
    obtain ⟨q, hq, hqo⟩ := (hc.kept h).objects o ho
    have hqs := not_active_of_follow (hk _ List.mem_cons_self o ho q hq hqo) hne
    exact ih (hc.versionInv h) (fun e he => hk e (List.mem_cons_of_mem _ he)) q hq hqs p hp
      (he.trans hqo.symm)

lemma lifecycleKept_append {db : Db} {ops ops' : List Op} :
    LifecycleKept db (ops ++ ops') ↔ LifecycleKept db ops ∧ LifecycleKept (run db ops) ops' := by
  simp only [LifecycleKept, history_append, List.mem_append, or_imp, forall_and]

lemma lifecycleKept_iff {db : Db} (h : VersionInv db) (ops : List Op) :
    LifecycleKept db ops ↔ ∀ e ∈ history db ops, ¬Revives e.before e.op := by
  induction ops generalizing db with
  | nil => simp [LifecycleKept, history]
  | cons op ops ih =>
    have hstep : StatesFollow db (step db op) ↔ ¬Revives db op :=
      ⟨fun hf hr => not_statesFollow_of_revives hr hf, (step_changed db op).statesFollow h⟩
    have htail := ih ((step_changed db op).versionInv h)
    simp only [LifecycleKept, history, List.forall_mem_cons] at htail ⊢
    exact and_congr hstep htail

theorem lifecycle_kept_iff_no_commit_revives (ops : List Op) :
    LifecycleKept {} ops ∧ NeverRevived {} ops ↔
      ∀ e ∈ history {} ops, ¬Revives e.before e.op := by
  rw [← lifecycleKept_iff VersionInv.empty]
  refine ⟨And.left, fun hk => ⟨hk, ?_⟩⟩
  rintro pre mid post rfl
  rw [run_append]
  obtain ⟨hpre, -⟩ := lifecycleKept_append.mp hk
  exact neverRevived_of_kept (versionInv_run pre) (lifecycleKept_append.mp hpre).2

def commitAfterDeletion : List Op :=
  [.createObject (.value "report"),
    .createVersion (.value ⟨0⟩) (.value 0) (.value (String.ofList (List.replicate 64 '0'))) (.value none),
    .transitionObjectState (.value ⟨0⟩) (.value .deleting),
    .transitionObjectState (.value ⟨0⟩) (.value .deleted),
    .commitVersion 0 (.value ⟨1⟩) (.value none)]

theorem deleted_object_active_again :
    ¬LifecycleKept {} commitAfterDeletion ∧ ¬NeverRevived {} commitAfterDeletion := by
  refine ⟨by decide +kernel, fun h => ?_⟩
  have hrev := h (commitAfterDeletion.take 4) (commitAfterDeletion.drop 4) [] rfl
  revert hrev
  decide +kernel

end Vault.Metadata
