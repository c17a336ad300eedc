import Vault.Gateway.Deletion

/-! What one step of a deletion can do. -/

namespace Vault.Gateway

open Vault.Common Vault.Metadata Vault.Storage Vault.Lib Vault.Lib.Transaction
open Vault.Lib.Transaction.Tx

inductive Deleted (d : Deletion) (db : Db) (s : Store) : Option Deletion → Db → Store → Prop
  | idle : Deleted d db s (some d) db s
  | unregistered {k : ℕ} {c : Call} : d.phase = .gather → d.calls[k]? = some c → c.result = none →
      c.known = false →
      Deleted d db s (some { d with calls := d.calls.set k (c.finish true) }) db s
  | refused {k : ℕ} {c : Call} : d.phase = .gather → d.calls[k]? = some c → c.result = none →
      c.known = true →
      Deleted d db s (some { d with calls := d.calls.set k (c.finish false) }) db s
  | removed {k : ℕ} {c : Call} (ok : Bool) : d.phase = .gather → d.calls[k]? = some c →
      c.result = none → c.known = true →
      Deleted d db s (some { d with calls := d.calls.set k (c.finish ok) }) db
        (s.set c.nodeId c.versionId none)
  | failed : d.phase = .gather → (∀ c ∈ d.calls, c.result ≠ none) → Deleted d db s none (d.flush db) s
  | cleared : d.phase = .gather → (∀ c ∈ d.calls, c.succeeded) →
      Deleted d db s (some { d with phase := .finish }) (d.flush db) s
  | aborted : Deleted d db s none db s
  | entered : d.phase = .finish →
      Deleted d db s none (db.amendObject d.objectId (Object.enter .deleted)) s

lemma enterObjectState_ok {seen : Object → ObjectState} {i : UUID} {state : ObjectState} {db db' : Db}
    {o : Object} (h : (enterObjectState seen i state).run db = .ok (o, db')) :
    db' = db ∨ db' = db.amendObject i (Object.enter state) := by
  simp [enterObjectState] at h
  obtain ⟨obj, -, ⟨-, -, rfl⟩ | ⟨-, -, -, rfl⟩⟩ := h
  · exact Or.inl rfl
  · exact Or.inr rfl

lemma deletion_call_deleted {d : Deletion} (db : Db) (s : Store) (hg : d.phase = .gather) (k : ℕ)
    (fault : Option Fault) : Deleted d db s (some (d.call k fault s).1) db (d.call k fault s).2 := by
  unfold Deletion.call
  cases hc : d.calls[k]? with
  | none => exact .idle
  | some c =>
    dsimp only
    split_ifs with hr hk
    · exact .idle
    · rw [not_not] at hr
      rcases fault with _ | e | e
      · exact .removed true hg hc hr hk
      · exact .refused hg hc hr hk
      · exact .removed false hg hc hr hk
    · rw [not_not] at hr
      exact .unregistered hg hc hr (by simpa using hk)

lemma enterDeleted_deleted {d : Deletion} {db : Db} {s : Store} (hf : d.phase = .finish)
    (seen : Object → ObjectState) :
    Deleted d db s none (atomic (enterObjectState seen d.objectId .deleted) db).2 s := by
  rcases atomic_cases (enterObjectState seen d.objectId .deleted) db with ⟨o, db', hb, he⟩ | ⟨f, -, he⟩
  · rw [he]
    rcases enterObjectState_ok hb with rfl | rfl
    · exact .aborted
    · exact .entered hf
  · rw [he]
    exact .aborted

lemma deletion_step_deleted (refresh : Bool) (d : Deletion) (db : Db) (s : Store) (a : DeleteAction) :
    Deleted d db s (d.step refresh db s a).1 (d.step refresh db s a).2.1 (d.step refresh db s a).2.2 := by
  cases a with
  | call k fault =>
    simp only [Deletion.step]
    split_ifs with hg
    · exact deletion_call_deleted db s hg k fault
    · exact .idle
  | commit =>
    simp only [Deletion.step]
    split_ifs with hg hall
    · exact .cleared hg.1 hall
    · exact .failed hg.1 hg.2
    · exact .idle
  | enterDeleted =>
    by_cases hf : d.phase = .finish
    · simp only [Deletion.step, if_pos hf]
      exact enterDeleted_deleted hf _
    · simp only [Deletion.step, if_neg hf]
      exact .idle

lemma findObject_mem {db : Db} {name : Arg String} {obj : Object} (h : findObject db name = .ok obj) :
    obj ∈ db.objects := by
  unfold findObject at h
  split at h
  · cases h
  · split at h
    · next hf =>
      cases h
      exact List.mem_of_find?_eq_some hf
    · cases h

lemma beginDelete_ok {db : Db} {name : Arg String} {d : Deletion} (h : beginDelete name db = .ok (some d)) :
    ∃ obj, findObject db name = .ok obj ∧ obj.state ≠ .deleted ∧
      d = { objectId := obj.objectId, pending := obj.state = .active,
            calls := (rowsOf db obj.objectId).map (callFor db) } := by
  unfold beginDelete at h
  split at h
  · cases h
  · next obj hobj =>
    split_ifs at h with hs
    · simp at h
    · simp only [Except.ok.injEq, Option.some.injEq] at h
      exact ⟨obj, hobj, hs, h.symm⟩

lemma mem_calls {db : Db} {objectId : UUID} {c : Call}
    (h : c ∈ (rowsOf db objectId).map (callFor db)) :
    ∃ r ∈ db.replicas, OwnedBy db objectId r.versionId ∧ c = callFor db r := by
  obtain ⟨r, hr, rfl⟩ := List.mem_map.mp h
  obtain ⟨hm, ho⟩ := List.mem_filter.mp hr
  exact ⟨r, hm, of_decide_eq_true ho, rfl⟩

lemma flush_replicas (d : Deletion) (db : Db) :
    (d.flush db).replicas = db.replicas.filter
      (fun r => r.replicaId ∉ (d.calls.filter Call.succeeded).map Call.replicaId) := by
  unfold Deletion.flush
  dsimp only
  split_ifs <;> rfl

lemma flush_versions (d : Deletion) (db : Db) : (d.flush db).versions = db.versions := by
  unfold Deletion.flush
  dsimp only
  split_ifs <;> rfl

lemma flush_nodes (d : Deletion) (db : Db) : (d.flush db).nodes = db.nodes := by
  unfold Deletion.flush
  dsimp only
  split_ifs <;> rfl

lemma calls_set {P : Call → Prop} {d : Deletion} {k : ℕ} {c : Call} (hc : d.calls[k]? = some c)
    (hP : ∀ c ∈ d.calls, P c) {c' : Call} (hc' : P c → P c') : ∀ x ∈ d.calls.set k c', P x := by
  intro x hx
  rcases List.mem_or_eq_of_mem_set hx with hx | rfl
  · exact hP x hx
  · exact hc' (hP c (List.mem_of_getElem? hc))

end Vault.Gateway
