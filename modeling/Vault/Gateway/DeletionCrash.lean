import Vault.Gateway.DeletionSteps

/-! A deletion that stops at any point. The bytes of an `ACTIVE` object are deleted before the
transition to `DELETING` is durable, so a stop between the calls and the commit leaves the database
pointing at bytes that are gone. -/

namespace Vault.Gateway

open Vault.Common Vault.Metadata Vault.Storage Vault.Lib

structure Stop where
  deletion : Option Deletion
  db : Db
  store : Store

def Stop.step (refresh : Bool) (w : Stop) (a : DeleteAction) : Stop :=
  match w.deletion with
  | none => w
  | some d =>
    let (d, db, store) := d.step refresh w.db w.store a
    ⟨d, db, store⟩

def openDelete (name : Arg String) (db : Db) (store : Store) : Stop :=
  match beginDelete name db with
  | .ok d => ⟨d, db, store⟩
  | .error _ => ⟨none, db, store⟩

def stopAfter (refresh : Bool) (name : Arg String) (db : Db) (store : Store)
    (actions : List DeleteAction) : Stop :=
  actions.foldl (Stop.step refresh) (openDelete name db store)

def NothingLost (store : Store) (w : Stop) : Prop :=
  ∀ o ∈ w.db.objects, o.state = .active → ∀ r ∈ w.db.replicas, r.status = .healthy →
    OwnedBy w.db o.objectId r.versionId → store r.nodeId r.versionId ≠ none →
      w.store r.nodeId r.versionId ≠ none

def Exposed (name : Arg String) (db : Db) (store : Store) : Prop :=
  ∃ obj, findObject db name = .ok obj ∧ obj.state = .active ∧ ∃ r ∈ db.replicas, r.status = .healthy ∧
    OwnedBy db obj.objectId r.versionId ∧ (db.node? r.nodeId).isSome ∧
    store r.nodeId r.versionId ≠ none

structure Confined (db : Db) (store : Store) (objectId : UUID) (w : Stop) : Prop where
  rows : ∀ r ∈ w.db.replicas, r ∈ db.replicas
  versions : w.db.versions = db.versions
  active : ∀ o ∈ w.db.objects, o.state = .active → o ∈ db.objects
  bytes : ∀ n i, ¬(OwnedBy db objectId i ∧ (db.node? n).isSome) → w.store n i = store n i
  calls : ∀ d ∈ w.deletion, ∀ c ∈ d.calls,
    OwnedBy db objectId c.versionId ∧ (c.known = true → (db.node? c.nodeId).isSome)

lemma active_amend {objects : List Object} {i : UUID} {state : ObjectState} (hs : state ≠ .active)
    {o : Object} (ho : o ∈ Table.amend Object.objectId i (Object.enter state) objects)
    (ha : o.state = .active) : o ∈ objects := by
  obtain ⟨p, hp, rfl⟩ := Table.mem_amend.mp ho
  split_ifs at ha ⊢
  · exact absurd ha hs
  · exact hp

lemma flush_active {d : Deletion} {db : Db} {o : Object} (ho : o ∈ (d.flush db).objects)
    (ha : o.state = .active) : o ∈ db.objects := by
  unfold Deletion.flush at ho
  dsimp only at ho
  split_ifs at ho
  · exact active_amend (by decide) ho ha
  · exact ho

lemma Confined.step {db : Db} {store : Store} {objectId : UUID} {w : Stop}
    (h : Confined db store objectId w) (refresh : Bool) (a : DeleteAction) :
    Confined db store objectId (w.step refresh a) := by
  cases hd : w.deletion with
  | none => simpa only [Stop.step, hd] using h
  | some d =>
    have hcalls := h.calls d hd
    have hstep := deletion_step_deleted refresh d w.db w.store a
    simp only [Stop.step, hd]
    generalize (d.step refresh w.db w.store a).1 = d' at hstep ⊢
    generalize (d.step refresh w.db w.store a).2.1 = db' at hstep ⊢
    generalize (d.step refresh w.db w.store a).2.2 = s' at hstep ⊢
    cases hstep with
    | idle => exact ⟨h.rows, h.versions, h.active, h.bytes, by rintro _ ⟨⟩; exact hcalls⟩
    | unregistered hg hc hr hk =>
      refine ⟨h.rows, h.versions, h.active, h.bytes, ?_⟩
      rintro _ ⟨⟩
      exact calls_set hc hcalls id
    | refused hg hc hr hk =>
      refine ⟨h.rows, h.versions, h.active, h.bytes, ?_⟩
      rintro _ ⟨⟩
      exact calls_set hc hcalls id
    | @removed k c ok hg hc hr hk =>
      obtain ⟨hown, hknown⟩ := hcalls c (List.mem_of_getElem? hc)
      refine ⟨h.rows, h.versions, h.active, ?_, ?_⟩
      · intro n i hni
        have hne : (i, n) ≠ (c.versionId, c.nodeId) := by
          rintro ⟨⟩
          exact hni ⟨hown, hknown hk⟩
        exact (Store.set_ne hne).trans (h.bytes n i hni)
      · rintro _ ⟨⟩
        exact calls_set hc hcalls id
    | failed hg hall =>
      refine ⟨?_, (flush_versions d w.db).trans h.versions, ?_, h.bytes, by simp⟩
      · intro r hr
        rw [flush_replicas] at hr
        exact h.rows r (List.mem_filter.mp hr).1
      · exact fun o ho ha => h.active o (flush_active ho ha) ha
    | cleared hg hall =>
      refine ⟨?_, (flush_versions d w.db).trans h.versions, ?_, h.bytes, by rintro _ ⟨⟩; exact hcalls⟩
      · intro r hr
        rw [flush_replicas] at hr
        exact h.rows r (List.mem_filter.mp hr).1
      · exact fun o ho ha => h.active o (flush_active ho ha) ha
    | aborted => exact ⟨h.rows, h.versions, h.active, h.bytes, by simp⟩
    | entered hf =>
      refine ⟨h.rows, h.versions, ?_, h.bytes, by simp⟩
      exact fun o ho ha => h.active o (active_amend (by decide) ho ha) ha

lemma Confined.run {db : Db} {store : Store} {objectId : UUID} {w : Stop}
    (h : Confined db store objectId w) (refresh : Bool) (actions : List DeleteAction) :
    Confined db store objectId (actions.foldl (Stop.step refresh) w) := by
  induction actions generalizing w with
  | nil => exact h
  | cons a actions ih => exact ih (h.step refresh a)

lemma foldl_step_none (refresh : Bool) (db : Db) (store : Store) (actions : List DeleteAction) :
    actions.foldl (Stop.step refresh) ⟨none, db, store⟩ = ⟨none, db, store⟩ := by
  induction actions with
  | nil => rfl
  | cons a actions ih => exact ih

lemma Confined.open {db : Db} {name : Arg String} {d : Deletion} (store : Store)
    (h : beginDelete name db = .ok (some d)) : Confined db store d.objectId ⟨some d, db, store⟩ := by
  obtain ⟨obj, -, -, rfl⟩ := beginDelete_ok h
  refine ⟨fun _ hr => hr, rfl, fun _ ho _ => ho, fun _ _ _ => rfl, ?_⟩
  rintro _ ⟨⟩ c hc
  obtain ⟨r, -, hown, rfl⟩ := mem_calls hc
  exact ⟨hown, id⟩

lemma not_nothingLost_of_exposed {name : Arg String} {db : Db} {store : Store} (refresh : Bool)
    (h : Exposed name db store) :
    ∃ actions, ¬NothingLost store (stopAfter refresh name db store actions) := by
  obtain ⟨obj, hobj, hact, r, hr, hs, hown, hknown, hbytes⟩ := h
  set d : Deletion :=
    { objectId := obj.objectId, pending := obj.state = .active,
      calls := (rowsOf db obj.objectId).map (callFor db) } with hd
  have hbegin : beginDelete name db = .ok (some d) := by
    simp [beginDelete, hobj, hact, hd]
  have hmem : callFor db r ∈ d.calls :=
    List.mem_map_of_mem (List.mem_filter.mpr ⟨hr, decide_eq_true hown⟩)
  obtain ⟨k, hk⟩ := List.mem_iff_getElem?.mp hmem
  -- the node answers the call for this row, and the process stops before the commit
  refine ⟨[.call k none], fun hlost => ?_⟩
  have hstop : stopAfter refresh name db store [.call k none] =
      ⟨some { d with calls := d.calls.set k ((callFor db r).finish true) }, db,
        store.set r.nodeId r.versionId none⟩ := by
    have hcalled : (callFor db r).known = true := hknown
    simp only [stopAfter, openDelete, hbegin, List.foldl_cons, List.foldl_nil, Stop.step,
      Deletion.step, Deletion.call, hk, hcalled]
    rfl
  rw [hstop] at hlost
  exact hlost obj (findObject_mem hobj) hact r hr hs hown hbytes (Store.set_self _ _ _ _)

lemma nothingLost_of_not_exposed {name : Arg String} {db : Db} {store : Store}
    (hids : (db.objects.map Object.objectId).Nodup) (refresh : Bool) (h : ¬Exposed name db store)
    (actions : List DeleteAction) : NothingLost store (stopAfter refresh name db store actions) := by
  unfold stopAfter openDelete
  cases hb : beginDelete name db with
  | error e =>
    simp only [foldl_step_none]
    exact fun _ _ _ _ _ _ _ hbytes => hbytes
  | ok x =>
    cases x with
    | none =>
      simp only [foldl_step_none]
      exact fun _ _ _ _ _ _ _ hbytes => hbytes
    | some d =>
      have hc := (Confined.open store hb).run refresh actions
      obtain ⟨obj, hobj, -, rfl⟩ := beginDelete_ok hb
      intro o ho hact r hr hs hown hbytes
      rw [hc.bytes]
      · exact hbytes
      rintro ⟨hown', hknown⟩
      have ho' := hc.active o ho hact
      have hown₀ : OwnedBy db o.objectId r.versionId := by
        simpa only [OwnedBy, Db.version?, hc.versions] using hown
      obtain ⟨v, hv, hvo⟩ := hown₀
      obtain ⟨v', hv', hvo'⟩ := hown'
      cases Option.mem_unique hv hv'
      obtain rfl := Table.eq_of_key hids ho' (findObject_mem hobj) (hvo.symm.trans hvo')
      exact h ⟨o, hobj, hact, r, hc.rows r hr, hs, ⟨v, hv, hvo⟩, hknown, hbytes⟩

theorem nothing_lost_at_any_stop_iff (refresh : Bool) (name : Arg String) (db : Db) (store : Store)
    (hids : (db.objects.map Object.objectId).Nodup) :
    (∀ actions, NothingLost store (stopAfter refresh name db store actions)) ↔
      ¬Exposed name db store := by
  constructor
  · intro hall hexp
    obtain ⟨actions, hlost⟩ := not_nothingLost_of_exposed refresh hexp
    exact hlost (hall actions)
  · exact nothingLost_of_not_exposed hids refresh

theorem nothing_lost_without_bytes : (sampleDb.objects.map Object.objectId).Nodup ∧
    ((∀ actions, NothingLost (fun _ _ => none)
        (stopAfter false (.value "report") sampleDb (fun _ _ => none) actions)) ↔
      ¬Exposed (.value "report") sampleDb (fun _ _ => none)) :=
  ⟨by decide, nothing_lost_at_any_stop_iff false (.value "report") sampleDb (fun _ _ => none) (by decide)⟩

theorem bytes_lost_before_deleting_is_durable :
    ¬NothingLost sampleStore
      (stopAfter true (.value "report") sampleDb sampleStore [.call 0 none]) := by
  unfold NothingLost
  decide +kernel

end Vault.Gateway
