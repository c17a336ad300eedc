import Vault.Metadata.VersionNumbers

/-! The current version of an object along a run. Committed rows and objects stay, so the number
that an object points to never decreases. -/

namespace Vault.Metadata

open Vault.Common Vault.Lib

def Db.pointer (db : Db) (objectId : UUID) : Option UUID :=
  (db.object? objectId).bind Object.currentVersionId

def Db.numberOf (db : Db) (versionId : UUID) : Option ℕ :=
  (db.version? versionId).map Version.versionNumber

def Db.currentNumber (db : Db) (objectId : UUID) : ℕ := ((db.pointer objectId).bind db.numberOf).getD 0

def Event.created (e : Event) : Option Version :=
  match e.op, e.result with
  | .createVersion .., .ok (.version v) => some v
  | _, _ => none

def createdFor (objectId : UUID) (events : List Event) : List Version :=
  (events.filterMap Event.created).filter (fun v => v.objectId = objectId)

structure Kept (db db' : Db) : Prop where
  committed : ∀ w ∈ db.versions, w.state = .committed → w ∈ db'.versions
  objects : ∀ o ∈ db.objects, ∃ p ∈ db'.objects, p.objectId = o.objectId

lemma Kept.refl (db : Db) : Kept db db := ⟨fun _ hw _ => hw, fun o ho => ⟨o, ho, rfl⟩⟩

lemma Kept.frame {db db' : Db} (ho : db'.objects = db.objects) (hv : db'.versions = db.versions) :
    Kept db db' where
  committed _ hw _ := hv ▸ hw
  objects o hm := ⟨o, ho ▸ hm, rfl⟩

lemma mem_amend_of_key {ρ κ : Type} [DecidableEq κ] {key : ρ → κ} {k : κ} {f : ρ → ρ}
    (hf : ∀ r, key (f r) = key r) {rows : List ρ} {r : ρ} (hr : r ∈ rows) :
    ∃ s ∈ Table.amend key k f rows, key s = key r := by
  refine ⟨_, Table.mem_amend.mpr ⟨r, hr, rfl⟩, ?_⟩
  split_ifs
  · exact hf r
  · rfl

lemma committed_amend {db : Db} (h : VersionInv db) {v : Version} (hv : v ∈ db.versions)
    (hs : v.state ≠ .committed) (f : Version → Version) :
    ∀ w ∈ db.versions, w.state = .committed →
      w ∈ Table.amend Version.versionId v.versionId f db.versions := by
  intro w hw hc
  refine Table.mem_amend.mpr ⟨w, hw, if_neg ?_⟩
  intro he
  rw [Table.eq_of_key h.versionIds hw hv he] at hc
  exact hs hc

lemma Changed.kept {db db' : Db} {op : Op} (hc : Changed db op db') (h : VersionInv db) :
    Kept db db' := by
  cases hc with
  | createObject hfree =>
    exact ⟨fun _ hw _ => hw, fun o ho => ⟨o, List.mem_append_left _ ho, rfl⟩⟩
  | createVersion hobj hact hid ho hs hn =>
    exact ⟨fun w hw _ => List.mem_append_left _ hw, fun o ho => ⟨o, ho, rfl⟩⟩
  | @commitVersion now e v obj expected current he hv hobj hcur hm hs hlt =>
    refine ⟨committed_amend h (Table.lookup_mem hv) (by simp [hs]) _, fun o ho => ?_⟩
    exact mem_amend_of_key (f := Object.serve v.versionId) (Object.serve_objectId _) ho
  | @transitionObjectState obj state hobj ht =>
    refine ⟨fun _ hw _ => hw, fun o ho => ?_⟩
    exact mem_amend_of_key (f := Object.enter state) (Object.enter_objectId _) ho
  | failVersion hv hs =>
    exact ⟨committed_amend h (Table.lookup_mem hv) hs _, fun o ho => ⟨o, ho, rfl⟩⟩
  | createReplicas hnd hfree =>
    obtain ⟨ho, hv, -⟩ := insertReplicas_frame _ _ db
    exact .frame ho hv
  | nodes hn =>
    obtain ⟨nodes, k, -, rfl⟩ := hn
    exact .frame rfl rfl
  | _ => exact .frame rfl rfl

lemma VersionInv.object?_of_mem {db : Db} (h : VersionInv db) {o : Object} (ho : o ∈ db.objects) :
    db.object? o.objectId = some o :=
  Table.lookup_of_mem h.objectIds ho

lemma VersionInv.version?_of_mem {db : Db} (h : VersionInv db) {v : Version} (hv : v ∈ db.versions) :
    db.version? v.versionId = some v :=
  Table.lookup_of_mem h.versionIds hv

lemma currentNumber_of_pointer {db : Db} (h : VersionInv db) {o : Object} {v : Version}
    (ho : o ∈ db.objects) (hv : v ∈ db.versions) (hc : o.currentVersionId = some v.versionId) :
    db.currentNumber o.objectId = v.versionNumber := by
  simp [Db.currentNumber, Db.pointer, Db.numberOf, h.object?_of_mem ho, hc, h.version?_of_mem hv]

lemma le_currentNumber {db : Db} (h : VersionInv db) {o : Object} (ho : o ∈ db.objects) {w : Version}
    (hw : w ∈ db.versions) (hwo : w.objectId = o.objectId) (hc : w.state = .committed) :
    w.versionNumber ≤ db.currentNumber o.objectId := by
  cases hi : o.currentVersionId with
  | none => exact absurd hc (h.unset o ho hi w hw hwo)
  | some i =>
    obtain ⟨v, hv, rfl, -, -, hmax⟩ := h.pointer o ho i hi
    rw [currentNumber_of_pointer h ho hv hi]
    exact hmax w hw hwo hc

lemma currentNumber_attained {db : Db} (h : VersionInv db) {i : UUID}
    (hpos : db.currentNumber i ≠ 0) : ∃ o ∈ db.objects, o.objectId = i ∧
      ∃ v ∈ db.versions, v.objectId = i ∧ v.state = .committed ∧ v.versionNumber = db.currentNumber i := by
  cases hobj : db.object? i with
  | none => simp [Db.currentNumber, Db.pointer, hobj] at hpos
  | some o =>
    have ho := Table.lookup_mem hobj
    obtain rfl := object?_id hobj
    cases hi : o.currentVersionId with
    | none => simp [Db.currentNumber, Db.pointer, hobj, hi] at hpos
    | some j =>
      obtain ⟨v, hv, rfl, hvo, hs, -⟩ := h.pointer o ho j hi
      exact ⟨o, ho, rfl, v, hv, hvo, hs, (currentNumber_of_pointer h ho hv hi).symm⟩

lemma Kept.currentNumber_le {db db' : Db} (hk : Kept db db') (h : VersionInv db)
    (h' : VersionInv db') (i : UUID) : db.currentNumber i ≤ db'.currentNumber i := by
  by_cases hpos : db.currentNumber i = 0
  · omega
  · obtain ⟨o, ho, rfl, v, hv, hvo, hs, hn⟩ := currentNumber_attained h hpos
    obtain ⟨p, hp, hid⟩ := hk.objects o ho
    rw [← hn, ← hid]
    exact le_currentNumber h' hp (hk.committed v hv hs) (hvo.trans hid.symm) hs

lemma currentNumber_run_le {db : Db} (h : VersionInv db) (i : UUID) (ops : List Op) :
    db.currentNumber i ≤ (run db ops).currentNumber i := by
  induction ops generalizing db with
  | nil => exact le_rfl
  | cons op ops ih =>
    have hc := step_changed db op
    exact ((hc.kept h).currentNumber_le h (hc.versionInv h) i).trans (ih (hc.versionInv h))

lemma Changed.numbersOf_eq {db db' : Db} {op : Op} (hc : Changed db op db')
    (hop : ∀ o s c e, op ≠ .createVersion o s c e) (i : UUID) : numbersOf db' i = numbersOf db i := by
  cases hc with
  | createVersion => exact absurd rfl (hop _ _ _ _)
  | @commitVersion now =>
    exact numbersOf_amendVersion db _ (Version.commit_objectId now) (Version.commit_versionNumber now) i
  | failVersion => exact numbersOf_amendVersion db _ Version.fail_objectId Version.fail_versionNumber i
  | @createReplicas ns versionId nodeIds =>
    obtain ⟨-, hv, -⟩ := insertReplicas_frame versionId nodeIds db
    simp only [numbersOf, Db.versionsOf, hv]
  | nodes hn =>
    obtain ⟨nodes, k, -, rfl⟩ := hn
    rfl
  | _ => rfl

lemma event_created_cases (db : Db) (op : Op) :
    (∃ v, (op.event db).created = some v ∧ step db op = insertVersion v db) ∨
      ((op.event db).created = none ∧ ∀ i, numbersOf (step db op) i = numbersOf db i) := by
  cases op with
  | createVersion o s c e =>
    have hexec : (Op.createVersion o s c e).exec = answer .version (createVersion o s c e) := rfl
    rcases answer_cases .version (createVersion o s c e) db with ⟨f, he⟩ | ⟨v, db', hb, he⟩
    · refine Or.inr ⟨?_, ?_⟩
      · simp [Op.event, Event.created, hexec, he]
      · intro i
        simp [step, Op.event, hexec, he]
    · obtain ⟨-, -, -, -, -, -, -, -, rfl⟩ := createVersion_ok hb
      refine Or.inl ⟨v, ?_, ?_⟩
      · simp [Op.event, Event.created, hexec, he]
      · simp [step, Op.event, hexec, he]
  | _ => exact Or.inr ⟨rfl, (step_changed db _).numbersOf_eq (by simp)⟩

lemma length_numbersOf_run (db : Db) (ops : List Op) (i : UUID) :
    (numbersOf (run db ops) i).length =
      (numbersOf db i).length + (createdFor i (history db ops)).length := by
  induction ops generalizing db with
  | nil => simp [run, history, createdFor]
  | cons op ops ih =>
    change (numbersOf (run (step db op) ops) i).length = _
    rw [ih]
    rcases event_created_cases db op with ⟨v, hv, hs⟩ | ⟨hn, hs⟩
    · simp only [hs, numbersOf_insertVersion, history, createdFor, List.filterMap_cons_some hv,
        List.filter_cons, List.length_append]
      by_cases he : v.objectId = i
      · simp only [he, if_true, decide_true, List.length_cons, List.length_nil]
        omega
      · simp [he]
    · simp [hs i, history, createdFor, List.filterMap_cons_none hn]

theorem versions_numbered_and_current_is_latest (ops : List Op) :
    (∀ i, numbersOf (run {} ops) i = List.range' 1 (createdFor i (history {} ops)).length) ∧
      (∀ o ∈ (run {} ops).objects, ∀ i, o.currentVersionId = some i →
        ∃ v ∈ (run {} ops).versions, v.versionId = i ∧ v.objectId = o.objectId ∧
          v.state = .committed ∧ ∀ w ∈ (run {} ops).versions, w.objectId = o.objectId →
            w.state = .committed → w.versionNumber ≤ v.versionNumber) ∧
      (∀ o ∈ (run {} ops).objects, ∀ w ∈ (run {} ops).versions, w.objectId = o.objectId →
        w.state = .committed → o.currentVersionId ≠ none) ∧
      ∀ ops' i, (run {} ops).currentNumber i ≤ (run {} (ops ++ ops')).currentNumber i := by
  have h := versionInv_run ops
  refine ⟨fun i => ?_, h.pointer, ?_, fun ops' i => ?_⟩
  · have hl := length_numbersOf_run {} ops i
    rw [h.numbers i, hl]
    simp [numbersOf, Db.versionsOf]
  · intro o ho w hw hwo hs hn
    exact h.unset o ho hn w hw hwo hs
  · rw [run_append]
    exact currentNumber_run_le h i ops'

end Vault.Metadata
