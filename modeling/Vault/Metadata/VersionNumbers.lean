import Vault.Metadata.Effects

/-! The versions of an object are numbered from one without gaps, and the object points to the
highest committed one. -/

namespace Vault.Metadata

open Vault.Common Vault.Lib

def numbersOf (db : Db) (objectId : UUID) : List ℕ :=
  (db.versionsOf objectId).map Version.versionNumber

structure VersionInv (db : Db) : Prop where
  objectIds : (db.objects.map Object.objectId).Nodup
  versionIds : (db.versions.map Version.versionId).Nodup
  freshObject : ∀ o ∈ db.objects, o.objectId.n < db.nextId
  freshVersion : ∀ v ∈ db.versions, v.versionId.n < db.nextId
  owned : ∀ v ∈ db.versions, v.objectId.n < db.nextId
  numbers : ∀ i, numbersOf db i = List.range' 1 (numbersOf db i).length
  pointer : ∀ o ∈ db.objects, ∀ i, o.currentVersionId = some i →
    ∃ v ∈ db.versions, v.versionId = i ∧ v.objectId = o.objectId ∧ v.state = .committed ∧
      ∀ w ∈ db.versions, w.objectId = o.objectId → w.state = .committed →
        w.versionNumber ≤ v.versionNumber
  unset : ∀ o ∈ db.objects, o.currentVersionId = none →
    ∀ w ∈ db.versions, w.objectId = o.objectId → w.state ≠ .committed

lemma VersionInv.empty : VersionInv {} where
  objectIds := List.nodup_nil
  versionIds := List.nodup_nil
  freshObject := by simp
  freshVersion := by simp
  owned := by simp
  numbers := by simp [numbersOf, Db.versionsOf]
  pointer := by simp
  unset := by simp

lemma VersionInv.frame {db db' : Db} (h : VersionInv db) (ho : db'.objects = db.objects)
    (hv : db'.versions = db.versions) (hn : db.nextId ≤ db'.nextId) : VersionInv db' where
  objectIds := ho ▸ h.objectIds
  versionIds := hv ▸ h.versionIds
  freshObject o hm := (h.freshObject o (ho ▸ hm)).trans_le hn
  freshVersion v hm := (h.freshVersion v (hv ▸ hm)).trans_le hn
  owned v hm := (h.owned v (hv ▸ hm)).trans_le hn
  numbers i := by simpa only [numbersOf, Db.versionsOf, hv] using h.numbers i
  pointer := by simpa only [ho, hv] using h.pointer
  unset := by simpa only [ho, hv] using h.unset

lemma foldr_max_range' (n : ℕ) : (List.range' 1 n).foldr max 0 = n := by
  induction n with
  | zero => rfl
  | succ n ih =>
    rw [List.range'_concat, List.foldr_append]
    have hm : ∀ (l : List ℕ) (a b : ℕ), l.foldr max (max a b) = max (l.foldr max a) b := by
      intro l a b
      induction l with
      | nil => rfl
      | cons x l ih => simp only [List.foldr_cons, ih, max_assoc]
    simp only [List.foldr_cons, List.foldr_nil]
    rw [max_comm, hm, ih]
    omega

lemma VersionInv.maxVersionNumber_eq {db : Db} (h : VersionInv db) (i : UUID) :
    db.maxVersionNumber i = (numbersOf db i).length := by
  change (numbersOf db i).foldr max 0 = _
  conv_lhs => rw [h.numbers i]
  exact foldr_max_range' _

lemma VersionInv.insertObject {db : Db} (h : VersionInv db) (name : String) :
    VersionInv (insertObject { objectId := db.newUuid, name := name } db) where
  objectIds := by
    apply Table.nodup_append_fresh h.objectIds
    intro o ho he
    exact absurd (h.freshObject o ho) (by simp [he, Db.newUuid])
  versionIds := h.versionIds
  freshObject o ho := by
    simp only [Metadata.insertObject, List.mem_append, List.mem_singleton] at ho ⊢
    rcases ho with ho | rfl
    · exact (h.freshObject o ho).trans (Nat.lt_succ_self _)
    · exact Nat.lt_succ_self _
  freshVersion v hv := (h.freshVersion v hv).trans (Nat.lt_succ_self _)
  owned v hv := (h.owned v hv).trans (Nat.lt_succ_self _)
  numbers := h.numbers
  pointer o ho i hi := by
    simp only [Metadata.insertObject, List.mem_append, List.mem_singleton] at ho
    rcases ho with ho | rfl
    · exact h.pointer o ho i hi
    · cases hi
  unset o ho hn w hw he := by
    simp only [Metadata.insertObject, List.mem_append, List.mem_singleton] at ho
    rcases ho with ho | rfl
    · exact h.unset o ho hn w hw he
    · exact absurd (h.owned w hw) (by simp [he, Db.newUuid])

lemma numbersOf_insertVersion (db : Db) (v : Version) (i : UUID) :
    numbersOf (insertVersion v db) i =
      numbersOf db i ++ if v.objectId = i then [v.versionNumber] else [] := by
  simp only [numbersOf, Db.versionsOf, insertVersion, List.filter_append, List.map_append]
  split_ifs with he <;> simp [he]

lemma VersionInv.insertVersion {db : Db} (h : VersionInv db) {obj : Object} {v : Version}
    (hobj : obj ∈ db.objects) (hid : v.versionId = db.newUuid) (ho : v.objectId = obj.objectId)
    (hs : v.state = .preparing) (hn : v.versionNumber = db.maxVersionNumber obj.objectId + 1) :
    VersionInv (insertVersion v db) where
  objectIds := h.objectIds
  versionIds := by
    apply Table.nodup_append_fresh h.versionIds
    intro w hw he
    exact absurd (h.freshVersion w hw) (by simp [he, hid, Db.newUuid])
  freshObject o hm := (h.freshObject o hm).trans (Nat.lt_succ_self _)
  freshVersion w hw := by
    simp only [Metadata.insertVersion, List.mem_append, List.mem_singleton] at hw ⊢
    rcases hw with hw | rfl
    · exact (h.freshVersion w hw).trans (Nat.lt_succ_self _)
    · simp [hid, Db.newUuid]
  owned w hw := by
    simp only [Metadata.insertVersion, List.mem_append, List.mem_singleton] at hw ⊢
    rcases hw with hw | rfl
    · exact (h.owned w hw).trans (Nat.lt_succ_self _)
    · exact ho ▸ (h.freshObject obj hobj).trans (Nat.lt_succ_self _)
  numbers i := by
    rw [numbersOf_insertVersion]
    split_ifs with he
    · have hi : v.versionNumber = 1 + (numbersOf db i).length := by
        rw [hn, ← ho, he, h.maxVersionNumber_eq, Nat.add_comm]
      rw [List.length_append, List.length_singleton, List.range'_concat, ← h.numbers i, hi]
      simp
    · simpa using h.numbers i
  pointer o hm i hi := by
    obtain ⟨w, hw, hwi, hwo, hws, hmax⟩ := h.pointer o hm i hi
    refine ⟨w, List.mem_append_left _ hw, hwi, hwo, hws, ?_⟩
    intro u hu huo hus
    simp only [Metadata.insertVersion, List.mem_append, List.mem_singleton] at hu
    rcases hu with hu | rfl
    · exact hmax u hu huo hus
    · rw [hs] at hus
      cases hus
  unset o hm hnone w hw he := by
    simp only [Metadata.insertVersion, List.mem_append, List.mem_singleton] at hw
    rcases hw with hw | rfl
    · exact h.unset o hm hnone w hw he
    · simp [hs]

@[simp] lemma Version.commit_versionId (now : Time) (v : Version) :
    (v.commit now).versionId = v.versionId := rfl
@[simp] lemma Version.commit_objectId (now : Time) (v : Version) :
    (v.commit now).objectId = v.objectId := rfl
@[simp] lemma Version.commit_versionNumber (now : Time) (v : Version) :
    (v.commit now).versionNumber = v.versionNumber := rfl
@[simp] lemma Version.commit_state (now : Time) (v : Version) : (v.commit now).state = .committed := rfl
@[simp] lemma Version.fail_versionId (v : Version) : v.fail.versionId = v.versionId := rfl
@[simp] lemma Version.fail_objectId (v : Version) : v.fail.objectId = v.objectId := rfl
@[simp] lemma Version.fail_versionNumber (v : Version) : v.fail.versionNumber = v.versionNumber := rfl
@[simp] lemma Version.fail_state (v : Version) : v.fail.state = .failed := rfl
@[simp] lemma Object.serve_objectId (i : UUID) (o : Object) : (o.serve i).objectId = o.objectId := rfl
@[simp] lemma Object.serve_currentVersionId (i : UUID) (o : Object) :
    (o.serve i).currentVersionId = some i := rfl
@[simp] lemma Object.serve_state (i : UUID) (o : Object) : (o.serve i).state = .active := rfl
@[simp] lemma Object.enter_objectId (s : ObjectState) (o : Object) :
    (o.enter s).objectId = o.objectId := rfl
@[simp] lemma Object.enter_currentVersionId (s : ObjectState) (o : Object) :
    (o.enter s).currentVersionId = o.currentVersionId := rfl
@[simp] lemma Object.enter_state (s : ObjectState) (o : Object) : (o.enter s).state = s := rfl

lemma numbersOf_amendVersion (db : Db) (i : UUID) {f : Version → Version}
    (ho : ∀ v, (f v).objectId = v.objectId) (hn : ∀ v, (f v).versionNumber = v.versionNumber)
    (j : UUID) : numbersOf (db.amendVersion i f) j = numbersOf db j := by
  simp only [numbersOf, Db.versionsOf, Db.amendVersion]
  rw [Table.filter_amend (by intro v; simp only [ho]), Table.map_amend _ hn]

lemma fresh_amend {κ ρ : Type} [DecidableEq κ] {key : ρ → κ} {k : κ} {f : ρ → ρ} {g : ρ → UUID}
    (hg : ∀ r, g (f r) = g r) {rows : List ρ} {n : ℕ} (h : ∀ r ∈ rows, (g r).n < n) :
    ∀ r ∈ Table.amend key k f rows, (g r).n < n := by
  intro r hr
  obtain ⟨s, hs, rfl⟩ := Table.mem_amend.mp hr
  split_ifs
  · rw [hg]
    exact h s hs
  · exact h s hs

lemma VersionInv.enter {db : Db} (h : VersionInv db) (i : UUID) (state : ObjectState) :
    VersionInv (db.amendObject i (Object.enter state)) := by
  have hold : ∀ o ∈ Table.amend Object.objectId i (Object.enter state) db.objects,
      ∃ p ∈ db.objects, o.objectId = p.objectId ∧ o.currentVersionId = p.currentVersionId := by
    intro o ho
    obtain ⟨p, hp, rfl⟩ := Table.mem_amend.mp ho
    refine ⟨p, hp, ?_⟩
    split_ifs <;> exact ⟨rfl, rfl⟩
  exact {
    objectIds := Table.nodup_amend (f := Object.enter state) (Object.enter_objectId state) h.objectIds
    versionIds := h.versionIds
    freshObject := fresh_amend (f := Object.enter state) (Object.enter_objectId state) h.freshObject
    freshVersion := h.freshVersion
    owned := h.owned
    numbers := h.numbers
    pointer := by
      intro o ho j hj
      obtain ⟨p, hp, hid, hc⟩ := hold o ho
      rw [hid]
      exact h.pointer p hp j (hc ▸ hj)
    unset := by
      intro o ho hn w hw he
      obtain ⟨p, hp, hid, hc⟩ := hold o ho
      exact h.unset p hp (hc ▸ hn) w hw (hid ▸ he) }

lemma VersionInv.fail {db : Db} (h : VersionInv db) {v : Version} (hv : v ∈ db.versions)
    (hs : v.state ≠ .committed) : VersionInv (db.amendVersion v.versionId Version.fail) := by
  -- a committed row of the new table is an untouched row of the old one
  have hold : ∀ w ∈ Table.amend Version.versionId v.versionId Version.fail db.versions,
      w.state = .committed → w ∈ db.versions := by
    intro w hw hc
    obtain ⟨u, hu, rfl⟩ := Table.mem_amend.mp hw
    split_ifs at hc ⊢
    · cases hc
    · exact hu
  have hkeep : ∀ w ∈ db.versions, w.state = .committed →
      w ∈ Table.amend Version.versionId v.versionId Version.fail db.versions := by
    intro w hw hc
    refine Table.mem_amend.mpr ⟨w, hw, if_neg ?_⟩
    intro he
    rw [Table.eq_of_key h.versionIds hw hv he] at hc
    exact hs hc
  exact {
    objectIds := h.objectIds
    versionIds := Table.nodup_amend (f := Version.fail) Version.fail_versionId h.versionIds
    freshObject := h.freshObject
    freshVersion := fresh_amend (f := Version.fail) Version.fail_versionId h.freshVersion
    owned := fresh_amend (f := Version.fail) Version.fail_objectId h.owned
    numbers := by
      intro i
      rw [numbersOf_amendVersion db _ Version.fail_objectId Version.fail_versionNumber]
      exact h.numbers i
    pointer := by
      intro o ho i hi
      obtain ⟨w, hw, hwi, hwo, hws, hmax⟩ := h.pointer o ho i hi
      exact ⟨w, hkeep w hw hws, hwi, hwo, hws, fun u hu huo hus => hmax u (hold u hu hus) huo hus⟩
    unset := by
      intro o ho hn w hw he hc
      exact h.unset o ho hn w (hold w hw hc) he hc }

lemma VersionInv.commit {db : Db} (h : VersionInv db) {v : Version} {obj : Object}
    {current : Option ℕ} (now : Time) (hv : db.version? v.versionId = some v)
    (hobj : db.object? v.objectId = some obj) (hc : CurrentNumber db obj current)
    (hs : v.state = .preparing) (hlt : ∀ n ∈ current, n < v.versionNumber) :
    VersionInv ((db.amendVersion v.versionId (Version.commit now)).amendObject v.objectId
      (Object.serve v.versionId)) := by
  have hvm : v ∈ db.versions := Table.lookup_mem hv
  have hom : obj ∈ db.objects := Table.lookup_mem hobj
  have hoid : obj.objectId = v.objectId := Table.lookup_key hobj
  -- the committed rows that were there before have smaller numbers
  have hmax : ∀ w ∈ db.versions, w.objectId = v.objectId → w.state = .committed →
      w.versionNumber < v.versionNumber := by
    intro w hw hwo hws
    unfold CurrentNumber at hc
    cases hcur : obj.currentVersionId with
    | none => exact absurd hws (h.unset obj hom hcur w hw (hwo.trans hoid.symm))
    | some j =>
      rw [hcur] at hc
      obtain ⟨u, hu, rfl⟩ := hc
      obtain ⟨u', hu', hj, -, -, hle⟩ := h.pointer obj hom j hcur
      obtain rfl : u' = u :=
        Table.eq_of_key h.versionIds hu' (Table.lookup_mem hu) (hj.trans (Table.lookup_key hu).symm)
      exact (hle w hw (hwo.trans hoid.symm) hws).trans_lt (hlt _ rfl)
  have hold : ∀ w ∈ Table.amend Version.versionId v.versionId (Version.commit now) db.versions,
      w.state = .committed → w = v.commit now ∨ w ∈ db.versions := by
    intro w hw _
    obtain ⟨u, hu, rfl⟩ := Table.mem_amend.mp hw
    split_ifs with he
    · rw [Table.eq_of_key h.versionIds hu hvm he]
      exact Or.inl rfl
    · exact Or.inr hu
  have hnew : v.commit now ∈
      Table.amend Version.versionId v.versionId (Version.commit now) db.versions :=
    Table.mem_amend.mpr ⟨v, hvm, if_pos rfl⟩
  have hkeep : ∀ w ∈ db.versions, w.state = .committed →
      w ∈ Table.amend Version.versionId v.versionId (Version.commit now) db.versions := by
    intro w hw hws
    refine Table.mem_amend.mpr ⟨w, hw, if_neg ?_⟩
    intro he
    rw [Table.eq_of_key h.versionIds hw hvm he, hs] at hws
    cases hws
  exact {
    objectIds := Table.nodup_amend (f := Object.serve v.versionId)
      (Object.serve_objectId v.versionId) h.objectIds
    versionIds := Table.nodup_amend (f := Version.commit now)
      (Version.commit_versionId now) h.versionIds
    freshObject := fresh_amend (f := Object.serve v.versionId)
      (Object.serve_objectId v.versionId) h.freshObject
    freshVersion := fresh_amend (f := Version.commit now) (Version.commit_versionId now) h.freshVersion
    owned := fresh_amend (f := Version.commit now) (Version.commit_objectId now) h.owned
    numbers := by
      intro i
      have hn := numbersOf_amendVersion db v.versionId (Version.commit_objectId now)
        (Version.commit_versionNumber now) i
      exact hn.symm ▸ h.numbers i
    pointer := by
      intro o ho i hi
      obtain ⟨p, hp, rfl⟩ := Table.mem_amend.mp ho
      split_ifs at hi ⊢ with he
      · obtain rfl : v.versionId = i := Option.some.inj hi
        refine ⟨v.commit now, hnew, rfl, he.symm, rfl, ?_⟩
        intro w hw hwo hws
        rcases hold w hw hws with rfl | hw
        · exact le_rfl
        · exact (hmax w hw (hwo.trans he) hws).le
      · obtain ⟨w, hw, hwi, hwo, hws, hle⟩ := h.pointer p hp i hi
        refine ⟨w, hkeep w hw hws, hwi, hwo, hws, ?_⟩
        intro u hu huo hus
        rcases hold u hu hus with rfl | hu
        · exact absurd huo.symm he
        · exact hle u hu huo hus
    unset := by
      intro o ho hn w hw hwo hws
      obtain ⟨p, hp, rfl⟩ := Table.mem_amend.mp ho
      split_ifs at hn hwo with he
      · cases hn
      · rcases hold w hw hws with rfl | hw
        · exact absurd hwo.symm he
        · exact h.unset p hp hn w hw hwo hws }

lemma insertReplicas_frame (versionId : UUID) (nodeIds : List String) (db : Db) :
    (nodeIds.foldl (fun db n => insertReplica versionId n db) db).objects = db.objects ∧
      (nodeIds.foldl (fun db n => insertReplica versionId n db) db).versions = db.versions ∧
      db.nextId ≤ (nodeIds.foldl (fun db n => insertReplica versionId n db) db).nextId := by
  induction nodeIds generalizing db with
  | nil => exact ⟨rfl, rfl, le_rfl⟩
  | cons n nodeIds ih =>
    obtain ⟨ho, hv, hn⟩ := ih (insertReplica versionId n db)
    exact ⟨ho, hv, (Nat.le_succ _).trans hn⟩

lemma Changed.versionInv {db db' : Db} {op : Op} (hc : Changed db op db') (h : VersionInv db) :
    VersionInv db' := by
  cases hc with
  | createObject hfree => exact h.insertObject _
  | createVersion hobj hact hid ho hs hn => exact h.insertVersion (Table.lookup_mem hobj) hid ho hs hn
  | commitVersion he hv hobj hcur hm hs hlt => exact h.commit _ hv hobj hcur hs hlt
  | transitionObjectState hobj ht => exact h.enter _ _
  | failVersion hv hs => exact h.fail (Table.lookup_mem hv) hs
  | createReplicas hnd hfree =>
    obtain ⟨ho, hv, hn⟩ := insertReplicas_frame _ _ db
    exact h.frame ho hv hn
  | createReplica hfree => exact h.frame rfl rfl (Nat.le_succ _)
  | nodes hn =>
    obtain ⟨nodes, k, hk, rfl⟩ := hn
    exact h.frame rfl rfl hk
  | _ => exact h.frame rfl rfl le_rfl

lemma versionInv_run (ops : List Op) : VersionInv (run {} ops) :=
  run_invariant VersionInv.empty (fun db op h => (step_changed db op).versionInv h) ops

end Vault.Metadata
