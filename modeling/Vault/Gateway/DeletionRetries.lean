import Vault.Gateway.DeletionSteps
import Vault.Storage.RetryAgreement

/-! Whole calls of `GatewayService.delete_object`, one after the other, with nobody else at work. The gathered requests
of a call end in any order; the row of a request goes when its node answered 204 or 404. -/

namespace Vault.Gateway

open Vault.Common Vault.Metadata Vault.Storage Vault.Lib Vault.Lib.Transaction
open Vault.Storage.StorageNodeClient (Transport FirstSettled readDeleted)

/-- What the outside world does in one call: the outcomes of the transport for the request of each row, whether a node
that was not heard has deleted its bytes, and the order in which the requests end. -/
structure Attempt where
  transport : UUID → ℕ → Transport
  acted : UUID → Bool := fun _ => false
  order : List ℕ := []

/-- How `StorageNodeClient.delete_object` ends for the row: `none` when it returns. -/
def Attempt.outcome (config : StorageNodeClient.Config) (a : Attempt) (replicaId : UUID) : Option Fault :=
  match (StorageNodeClient.request config .delete true (a.transport replicaId)).1.bind readDeleted with
  | .ok _ => none
  | .error e => some (if a.acted replicaId then .lost e else .refused e)

/-- The first answer that is not transient is 204 or 404. -/
def Acknowledged (config : StorageNodeClient.Config) (transport : ℕ → Transport) : Prop :=
  ∃ i < config.maxAttempts, ∃ r, FirstSettled transport i r ∧ (r.status = 204 ∨ r.status = 404)

def Deletion.gather (outcome : UUID → Option Fault) (d : Deletion) (s : Store) : List ℕ → Deletion × Store
  | [] => (d, s)
  | k :: ks =>
    let next := d.call k ((d.calls[k]?).bind (fun c => outcome c.replicaId)) s
    Deletion.gather outcome next.1 next.2 ks

structure Receipt where
  name : String
  state : ObjectState
  deletedReplicas : ℕ
  deriving DecidableEq, Repr

def undeleted (nodeIds : List String) : Failure :=
  let listed := ", ".intercalate nodeIds
  .vault ⟨.nodeUnavailable, s!"Unable to delete replicas on nodes: {listed}", 503⟩

def finishDelete (refresh : Bool) (d : Deletion) (obj : Object) (db : Db) : Except Failure Receipt × Db :=
  match atomic (enterObjectState (fun o => if refresh then o.state else .deleting) d.objectId .deleted) db with
  | (.error e, db) => (.error e, db)
  | (.ok _, db) => (.ok ⟨obj.name, .deleted, (d.calls.filter Call.succeeded).length⟩, db)

/-- `delete_object`; every gathered request has ended before the commit, those that `order` leaves out at the end. -/
def GatewayService.deleteObject (config : StorageNodeClient.Config) (refresh : Bool) (name : Arg String)
    (a : Attempt) (db : Db) (s : Store) : Except Failure Receipt × Db × Store :=
  match findObject db name with
  | .error e => (.error e, db, s)
  | .ok obj =>
    if obj.state = .deleted then (.ok ⟨obj.name, obj.state, 0⟩, db, s)
    else
      let opened : Deletion :=
        { objectId := obj.objectId, pending := obj.state = .active,
          calls := (rowsOf db obj.objectId).map (callFor db) }
      let (d, s) := opened.gather (a.outcome config) s (a.order ++ List.range opened.calls.length)
      let db := d.flush db
      let failures := (d.calls.filter (fun c => !c.succeeded)).map Call.nodeId
      if failures ≠ [] then (.error (undeleted failures), db, s)
      else
        let (result, db) := finishDelete refresh d obj db
        (result, db, s)

def retry (config : StorageNodeClient.Config) (refresh : Bool) (name : Arg String) :
    List Attempt → Db × Store → Db × Store
  | [], w => w
  | a :: as, w => retry config refresh name as (GatewayService.deleteObject config refresh name a w.1 w.2).2

section Acknowledging

variable {config : StorageNodeClient.Config}

lemma readDeleted_ok {r : StorageNodeClient.Received} :
    readDeleted r = .ok () ↔ r.status = 204 ∨ r.status = 404 := by
  simp only [readDeleted]
  split_ifs with hgone
  · simp [hgone]
  · by_cases hdone : r.status = 204
    · simp [hdone, NodeClient.raiseForResponse, StorageNodeClient.expectStatus, bind, Except.bind]
    · simp only [hgone, hdone, or_self, iff_false]
      intro h
      cases hraise : NodeClient.raiseForResponse r.status with
      | error e =>
        rw [hraise] at h
        cases h
      | ok _ =>
        rw [hraise] at h
        change StorageNodeClient.expectStatus 204 "DELETE" r = .ok () at h
        rw [StorageNodeClient.expectStatus, if_pos hdone] at h
        cases h

lemma mapError_eq_ok {ε ε' : Type} {f : ε → ε'} {x : Except ε Unit} : x.mapError f = .ok () ↔ x = .ok () := by
  cases x with
  | error e => exact iff_of_false (by rintro ⟨⟩) (by rintro ⟨⟩)
  | ok u => exact iff_of_true rfl rfl

/-- The client returns when, and only when, the node has acknowledged the deletion. -/
lemma outcome_eq_none_iff {a : Attempt} {i : UUID} :
    a.outcome config i = none ↔ Acknowledged config (a.transport i) := by
  have hreads : a.outcome config i = none ↔
      (StorageNodeClient.request config .delete true (a.transport i)).1.bind readDeleted = .ok () := by
    rw [Attempt.outcome]
    cases (StorageNodeClient.request config .delete true (a.transport i)).1.bind readDeleted with
    | error e => simp
    | ok u => simp
  -- the key of a deletion plays no part in how its answer is read
  let op : StorageNodeClient.Retried Unit := .delete ⟨"", ""⟩
  have hop : ∀ {x : Except Failure Unit},
      (((StorageNodeClient.request config op.operation true (a.transport i)).1.bind op.read).mapError .client = x) →
      (a.outcome config i = none ↔ x = .ok ()) := by
    rintro x rfl
    rw [hreads, mapError_eq_ok]
    rfl
  rcases StorageNodeClient.firstSettled_or_transient (a.transport i) config.maxAttempts with ⟨k, hk, r, hr⟩ | hall
  · rw [hop (StorageNodeClient.request_settled op hk hr).1, mapError_eq_ok]
    change readDeleted r = .ok () ↔ _
    rw [readDeleted_ok]
    constructor
    · intro hstatus
      exact ⟨k, hk, r, hr, hstatus⟩
    · rintro ⟨k', -, r', hr', hstatus⟩
      obtain rfl := hr.unique hr'
      exact hstatus
  · obtain ⟨message, hmessage⟩ := (StorageNodeClient.request_transient op hall).1
    rw [hop hmessage]
    refine iff_of_false (by rintro ⟨⟩) ?_
    rintro ⟨k, hk, r, hr, -⟩
    have htransient := hall k hk
    rw [hr.1] at htransient
    exact hr.2.1 htransient

end Acknowledging

section Gathering

variable {outcome : UUID → Option Fault}

def Call.settle (outcome : UUID → Option Fault) (c : Call) : Call := c.finish (outcome c.replicaId).isNone

/-- Every request of the gathering is still out or has ended as the world decides. -/
structure Underway (outcome : UUID → Option Fault) (opened d : Deletion) : Prop where
  objectId : d.objectId = opened.objectId
  pending : d.pending = opened.pending
  phase : d.phase = opened.phase
  length : d.calls.length = opened.calls.length
  calls : ∀ (k : ℕ) (c : Call), opened.calls[k]? = some c →
    d.calls[k]? = some c ∨ d.calls[k]? = some (c.settle outcome)

variable {opened d : Deletion}

lemma call_out {k : ℕ} {c : Call} (hc : d.calls[k]? = some c) (hout : c.result = none) (hknown : c.known = true)
    (fault : Option Fault) (s : Store) :
    (d.call k fault s).1 = { d with calls := d.calls.set k (c.finish fault.isNone) } := by
  simp only [Deletion.call, hc, hout, hknown, ne_eq, not_true_eq_false, if_false, if_true]
  cases fault with
  | none => rfl
  | some f =>
    cases f with
    | refused e => rfl
    | lost e => rfl

lemma call_ended {k : ℕ} {c : Call} (hc : d.calls[k]? = some c) (hended : c.result ≠ none) (fault : Option Fault)
    (s : Store) : (d.call k fault s).1 = d := by
  simp only [Deletion.call, hc, if_pos hended]

lemma call_absent {k : ℕ} (hc : d.calls[k]? = none) (fault : Option Fault) (s : Store) :
    (d.call k fault s).1 = d := by
  simp only [Deletion.call, hc]

lemma Underway.call (hopen : ∀ c ∈ opened.calls, c.result = none ∧ c.known = true) (h : Underway outcome opened d)
    (s : Store) (k : ℕ) :
    Underway outcome opened (d.call k ((d.calls[k]?).bind (fun c => outcome c.replicaId)) s).1 ∧
      (∀ c, opened.calls[k]? = some c →
        (d.call k ((d.calls[k]?).bind (fun c => outcome c.replicaId)) s).1.calls[k]? = some (c.settle outcome)) ∧
      ∀ (j : ℕ) (c : Call), d.calls[j]? = some (c.settle outcome) →
        (d.call k ((d.calls[k]?).bind (fun c => outcome c.replicaId)) s).1.calls[j]? = some (c.settle outcome) := by
  cases hk : opened.calls[k]? with
  | none =>
    have habsent : d.calls[k]? = none := by
      rw [List.getElem?_eq_none_iff] at hk ⊢
      rwa [h.length]
    rw [call_absent habsent]
    exact ⟨h, fun c hc => (by cases hc), fun j c hc => hc⟩
  | some c =>
    obtain ⟨hout, hknown⟩ := hopen c (List.mem_of_getElem? hk)
    rcases h.calls k c hk with hc | hc
    · rw [call_out hc hout hknown, hc]
      have hlt : k < d.calls.length := (List.getElem?_eq_some_iff.mp hc).1
      have hset : ∀ j, (d.calls.set k (c.settle outcome))[j]? =
          if k = j then some (c.settle outcome) else d.calls[j]? := by
        intro j
        rw [List.getElem?_set]
        split_ifs <;> rfl
      refine ⟨⟨h.objectId, h.pending, h.phase, by simpa using h.length, fun j c' hc' => ?_⟩, ?_, ?_⟩
      · change (d.calls.set k (c.settle outcome))[j]? = _ ∨ (d.calls.set k (c.settle outcome))[j]? = _
        rw [hset]
        split_ifs with hj
        · subst hj
          rw [hk] at hc'
          cases hc'
          exact Or.inr rfl
        · exact h.calls j c' hc'
      · rintro c' hc'
        cases hc'
        change (d.calls.set k (c.settle outcome))[k]? = _
        rw [hset, if_pos rfl]
      · intro j c' hc'
        change (d.calls.set k (c.settle outcome))[j]? = _
        rw [hset]
        split_ifs with hj
        · subst hj
          rw [hc] at hc'
          cases hc'
          cases hout
        · exact hc'
    · rw [call_ended hc (by simp [Call.settle, Call.finish])]
      exact ⟨h, fun c' hc' => (by cases hc'; exact hc), fun j c' hc' => hc'⟩

lemma Underway.gather (hopen : ∀ c ∈ opened.calls, c.result = none ∧ c.known = true) (ks : List ℕ)
    (h : Underway outcome opened d) (s : Store) :
    Underway outcome opened (d.gather outcome s ks).1 ∧
      ∀ (k : ℕ) (c : Call), opened.calls[k]? = some c → k ∈ ks ∨ d.calls[k]? = some (c.settle outcome) →
        (d.gather outcome s ks).1.calls[k]? = some (c.settle outcome) := by
  induction ks generalizing d s with
  | nil => exact ⟨h, fun k c _ hk => hk.resolve_left List.not_mem_nil⟩
  | cons j ks ih =>
    obtain ⟨hnext, hsettled, hkept⟩ := h.call hopen s j
    obtain ⟨hend, hall⟩ := ih hnext (d.call j ((d.calls[j]?).bind (fun c => outcome c.replicaId)) s).2
    refine ⟨hend, fun k c hc hk => hall k c hc ?_⟩
    rcases hk with hk | hk
    · rcases List.mem_cons.mp hk with rfl | hk
      · exact Or.inr (hsettled c hc)
      · exact Or.inl hk
    · exact Or.inr (hkept k c hk)

/-- When every request has ended, the calls are settled as the world decides, in whatever order they ended. -/
lemma gather_calls (hopen : ∀ c ∈ opened.calls, c.result = none ∧ c.known = true) (s : Store) (order : List ℕ) :
    (opened.gather outcome s (order ++ List.range opened.calls.length)).1 =
      { opened with calls := opened.calls.map (Call.settle outcome) } := by
  have hstart : Underway outcome opened opened := ⟨rfl, rfl, rfl, rfl, fun k c hc => Or.inl hc⟩
  obtain ⟨hend, hall⟩ := hstart.gather hopen (order ++ List.range opened.calls.length) s
  have hcalls : (opened.gather outcome s (order ++ List.range opened.calls.length)).1.calls =
      opened.calls.map (Call.settle outcome) := by
    apply List.ext_getElem?
    intro k
    rw [List.getElem?_map]
    cases hk : opened.calls[k]? with
    | none =>
      rw [Option.map_none, List.getElem?_eq_none_iff, hend.length]
      exact List.getElem?_eq_none_iff.mp hk
    | some c =>
      have hlt : k < opened.calls.length := (List.getElem?_eq_some_iff.mp hk).1
      exact hall k c hk (Or.inl (List.mem_append_right _ (List.mem_range.mpr hlt)))
  rw [Deletion.mk.injEq]
  exact ⟨hend.objectId, hend.pending, hcalls, hend.phase⟩

end Gathering

/-- What the schema guarantees: primary keys, and that the node of a row is registered. -/
structure Keyed (db : Db) : Prop where
  objects : (db.objects.map Object.objectId).Nodup
  replicas : (db.replicas.map Replica.replicaId).Nodup
  nodes : ∀ r ∈ db.replicas, (db.node? r.nodeId).isSome = true

def Cleared (outcome : UUID → Option Fault) (objectId : UUID) (db : Db) : Prop :=
  ∀ r ∈ rowsOf db objectId, outcome r.replicaId = none

instance (outcome : UUID → Option Fault) (objectId : UUID) (db : Db) : Decidable (Cleared outcome objectId db) :=
  inferInstanceAs (Decidable (∀ r ∈ rowsOf db objectId, outcome r.replicaId = none))

/-- The database after a call for an object that is not `DELETED`. -/
def settled (outcome : UUID → Option Fault) (objectId : UUID) (db : Db) : Db :=
  { db with
    replicas := db.replicas.filter (fun r => ¬(OwnedBy db objectId r.versionId ∧ outcome r.replicaId = none))
    objects := Table.amend Object.objectId objectId
      (Object.enter (if Cleared outcome objectId db then .deleted else .deleting)) db.objects }

section Calls

variable {outcome : UUID → Option Fault} {db : Db} {obj : Object} {name : Arg String}

def opening (db : Db) (obj : Object) : Deletion :=
  { objectId := obj.objectId, pending := obj.state = .active, calls := (rowsOf db obj.objectId).map (callFor db) }

def gathered (outcome : UUID → Option Fault) (db : Db) (obj : Object) : Deletion :=
  { opening db obj with calls := (rowsOf db obj.objectId).map fun r => (callFor db r).settle outcome }

lemma succeeded_settle {r : Replica} :
    ((callFor db r).settle outcome).succeeded = true ↔ outcome r.replicaId = none := by
  simp [Call.succeeded, Call.settle, Call.finish, callFor]

lemma gather_opening (outcome : UUID → Option Fault) (obj : Object) (hkeyed : Keyed db) (s : Store) (order : List ℕ) :
    ((opening db obj).gather outcome s (order ++ List.range (opening db obj).calls.length)).1 =
      gathered outcome db obj := by
  rw [gather_calls ?_ s order, gathered]
  · simp only [opening, List.map_map]
    rfl
  · intro c hc
    obtain ⟨r, hr, -, rfl⟩ := mem_calls hc
    exact ⟨rfl, hkeyed.nodes r hr⟩

lemma mem_succeeded {r : Replica} (hkeyed : Keyed db) (hr : r ∈ db.replicas) :
    r.replicaId ∈ ((gathered outcome db obj).calls.filter Call.succeeded).map Call.replicaId ↔
      OwnedBy db obj.objectId r.versionId ∧ outcome r.replicaId = none := by
  simp only [gathered, List.filter_map, List.map_map, List.mem_map, List.mem_filter, Function.comp]
  constructor
  · rintro ⟨q, ⟨hq, hdone⟩, hid⟩
    obtain ⟨hmem, hown⟩ := List.mem_filter.mp hq
    obtain rfl : q = r := Table.eq_of_key hkeyed.replicas hmem hr hid
    exact ⟨of_decide_eq_true hown, succeeded_settle.mp hdone⟩
  · rintro ⟨hown, hdone⟩
    exact ⟨r, ⟨List.mem_filter.mpr ⟨hr, decide_eq_true hown⟩, succeeded_settle.mpr hdone⟩, rfl⟩

lemma failures_eq_nil : ((gathered outcome db obj).calls.filter (fun c => !c.succeeded)).map Call.nodeId = [] ↔
    Cleared outcome obj.objectId db := by
  simp only [gathered, List.map_eq_nil_iff, List.filter_eq_nil_iff, List.forall_mem_map, Bool.not_eq_true',
    Bool.not_eq_false, succeeded_settle, Cleared]

/-- The commit removes the rows that were acknowledged and makes `DELETING` durable. -/
lemma flush_gathered (hkeyed : Keyed db) (hobj : obj ∈ db.objects) (hlive : obj.state ≠ .deleted) :
    (gathered outcome db obj).flush db =
      { db with
        replicas := db.replicas.filter (fun r => ¬(OwnedBy db obj.objectId r.versionId ∧ outcome r.replicaId = none))
        objects := Table.amend Object.objectId obj.objectId (Object.enter .deleting) db.objects } := by
  have hrows : db.replicas.filter (fun r => r.replicaId ∉
      ((gathered outcome db obj).calls.filter Call.succeeded).map Call.replicaId) =
      db.replicas.filter (fun r => ¬(OwnedBy db obj.objectId r.versionId ∧ outcome r.replicaId = none)) := by
    apply List.filter_congr
    intro r hr
    rw [decide_eq_decide, mem_succeeded hkeyed hr]
  have hobjects : obj.state ≠ .active →
      Table.amend Object.objectId obj.objectId (Object.enter .deleting) db.objects = db.objects := by
    intro hpast
    apply Table.amend_fixed hkeyed.objects hobj
    cases hstate : obj.state with
    | active => exact absurd hstate hpast
    | deleting =>
      rw [Object.enter, ← hstate]
    | deleted => exact absurd hstate hlive
  by_cases hactive : obj.state = .active
  · have hpending : (gathered outcome db obj).pending = true := decide_eq_true hactive
    simp only [Deletion.flush, hpending, if_true, removeRows, hrows]
    rfl
  · have hpending : (gathered outcome db obj).pending = false := decide_eq_false hactive
    rw [hobjects hactive]
    simp only [Deletion.flush, hpending, Bool.false_eq_true, if_false, removeRows, hrows]

lemma finishDelete_gathered (outcome : UUID → Option Fault) (refresh : Bool) (hobj : obj ∈ db.objects)
    (hkeyed : Keyed db) (rows : List Replica) :
    ∃ receipt, finishDelete refresh (gathered outcome db obj) obj
      { db with
        replicas := rows
        objects := Table.amend Object.objectId obj.objectId (Object.enter .deleting) db.objects } =
      (.ok receipt,
        { db with
          replicas := rows
          objects := Table.amend Object.objectId obj.objectId (Object.enter .deleted) db.objects }) := by
  have hseen : (if refresh then (obj.enter .deleting).state else .deleting) = ObjectState.deleting := by
    cases refresh <;> rfl
  have hfound : Table.lookup Object.objectId obj.objectId
      (Table.amend Object.objectId obj.objectId (Object.enter .deleting) db.objects) = some (obj.enter .deleting) :=
    Table.lookup_amend_self (f := Object.enter .deleting) (fun _ => rfl) (Table.lookup_of_mem hkeyed.objects hobj)
  have hrun : (enterObjectState (fun o => if refresh then o.state else .deleting) obj.objectId .deleted).run
      { db with
        replicas := rows
        objects := Table.amend Object.objectId obj.objectId (Object.enter .deleting) db.objects } =
      .ok ((obj.enter .deleting).enter .deleted,
        { db with
          replicas := rows
          objects := Table.amend Object.objectId obj.objectId (Object.enter .deleted) db.objects }) := by
    have hobjects : Table.amend Object.objectId obj.objectId (Object.enter .deleted)
        (Table.amend Object.objectId obj.objectId (Object.enter .deleting) db.objects) =
        Table.amend Object.objectId obj.objectId (Object.enter .deleted) db.objects :=
      Table.amend_amend (f := Object.enter .deleting) (g := Object.enter .deleted) (fun _ => rfl) db.objects
    simp only [enterObjectState, Tx.run_bind, Tx.run_read, Tx.run_demand, Db.object?]
    refine ⟨_, _, rfl, obj.enter .deleting, _, ⟨hfound, rfl⟩, ?_⟩
    refine Tx.run_ite.mpr (Or.inr ⟨by rw [hseen]; decide, Tx.bind_require.mpr
      ⟨by rw [hseen]; decide, Tx.bind_write.mpr ?_⟩⟩)
    simp only [Db.amendObject, hobjects]
    rfl
  refine ⟨⟨obj.name, .deleted, ((gathered outcome db obj).calls.filter Call.succeeded).length⟩, ?_⟩
  have hid : (gathered outcome db obj).objectId = obj.objectId := rfl
  rw [finishDelete, hid, atomic_ok hrun]

/-- One call for an object that is not `DELETED`: it raises when a node has not acknowledged. -/
lemma deleteObject_live (config : StorageNodeClient.Config) (refresh : Bool) (a : Attempt) (s : Store)
    (hkeyed : Keyed db) (hfound : findObject db name = .ok obj) (hlive : obj.state ≠ .deleted) :
    (GatewayService.deleteObject config refresh name a db s).2.1 = settled (a.outcome config) obj.objectId db ∧
      ((∃ e, (GatewayService.deleteObject config refresh name a db s).1 = .error e) ↔
        ¬Cleared (a.outcome config) obj.objectId db) := by
  have hobj := findObject_mem hfound
  have hgather := gather_opening (a.outcome config) obj hkeyed s a.order
  simp only [GatewayService.deleteObject, hfound, if_neg hlive]
  rcases hpair : (opening db obj).gather (a.outcome config) s
    (a.order ++ List.range (opening db obj).calls.length) with ⟨d, s'⟩
  rw [hpair] at hgather
  have hd : d = gathered (a.outcome config) db obj := hgather
  simp only [opening] at hpair
  simp only [hpair, hd, flush_gathered hkeyed hobj hlive, ne_eq, failures_eq_nil]
  by_cases hcleared : Cleared (a.outcome config) obj.objectId db
  · obtain ⟨receipt, hfinish⟩ := finishDelete_gathered (a.outcome config) refresh hobj hkeyed
      (db.replicas.filter fun r => ¬(OwnedBy db obj.objectId r.versionId ∧ a.outcome config r.replicaId = none))
    simp only [hcleared, not_true_eq_false, if_false, hfinish, settled, if_true]
    exact ⟨trivial, by simp⟩
  · simp only [hcleared, not_false_eq_true, if_true, settled, if_false]
    exact ⟨trivial, by simp⟩

end Calls

section Settled

variable {outcome : UUID → Option Fault} {db : Db} {obj : Object} {name : Arg String} {i : UUID}

lemma rowsOf_settled : rowsOf (settled outcome i db) i =
    (rowsOf db i).filter (fun r => outcome r.replicaId ≠ none) := by
  simp only [rowsOf, settled, List.filter_filter]
  apply List.filter_congr
  intro r _
  change (decide (OwnedBy db i r.versionId) && decide ¬(OwnedBy db i r.versionId ∧ outcome r.replicaId = none)) =
    (decide (outcome r.replicaId ≠ none) && decide (OwnedBy db i r.versionId))
  by_cases hown : OwnedBy db i r.versionId <;> simp [hown]

lemma Keyed.settled (h : Keyed db) : Keyed (settled outcome i db) where
  objects := Table.nodup_amend (f := Object.enter _) (g := Object.objectId) (fun _ => rfl) h.objects
  replicas := h.replicas.sublist (List.filter_sublist.map _)
  nodes := fun r hr => h.nodes r (List.mem_of_mem_filter hr)

lemma findObject_settled (outcome : UUID → Option Fault) (hfound : findObject db name = .ok obj) :
    findObject (settled outcome obj.objectId db) name =
      .ok (obj.enter (if Cleared outcome obj.objectId db then .deleted else .deleting)) := by
  simp only [findObject] at hfound ⊢
  cases hname : normalizeObjectName name with
  | error e =>
    rw [hname] at hfound
    cases hfound
  | ok normalized =>
    rw [hname] at hfound
    simp only at hfound ⊢
    cases hfind : db.objects.find? (fun o => o.name = normalized) with
    | none =>
      rw [hfind] at hfound
      cases hfound
    | some o =>
      rw [hfind] at hfound
      cases hfound
      have hamended : (settled outcome obj.objectId db).objects.find? (fun o => o.name = normalized) =
          some (obj.enter (if Cleared outcome obj.objectId db then .deleted else .deleting)) := by
        have hmap := Table.lookup_map (k := normalized)
          (f := fun o : Object => if o.objectId = obj.objectId then
            o.enter (if Cleared outcome obj.objectId db then .deleted else .deleting) else o)
          (fun o => by split_ifs <;> rfl : ∀ o : Object, Object.name _ = o.name) db.objects
        have hold : Table.lookup Object.name normalized db.objects = some obj := hfind
        rw [hold, Option.map_some, if_pos rfl] at hmap
        exact hmap
      rw [hamended]

end Settled

section Retries

variable {config : StorageNodeClient.Config} {refresh : Bool} {name : Arg String} {db : Db} {s : Store} {obj : Object}

lemma deleteObject_deleted (a : Attempt) (hfound : findObject db name = .ok obj) (hgone : obj.state = .deleted) :
    GatewayService.deleteObject config refresh name a db s = (.ok ⟨obj.name, obj.state, 0⟩, db, s) := by
  simp only [GatewayService.deleteObject, hfound, if_pos hgone]

/-- A call keeps the tables keyed and the object under its name. -/
lemma deleteObject_keeps (config : StorageNodeClient.Config) (refresh : Bool) (s : Store) (a : Attempt) (hkeyed : Keyed db) (hfound : findObject db name = .ok obj) :
    Keyed (GatewayService.deleteObject config refresh name a db s).2.1 ∧
      ∃ o, findObject (GatewayService.deleteObject config refresh name a db s).2.1 name = .ok o ∧
        o.objectId = obj.objectId := by
  by_cases hgone : obj.state = .deleted
  · rw [deleteObject_deleted a hfound hgone]
    exact ⟨hkeyed, obj, hfound, rfl⟩
  · rw [(deleteObject_live config refresh a s hkeyed hfound hgone).1]
    exact ⟨hkeyed.settled, _, findObject_settled _ hfound, rfl⟩

lemma retry_keeps (config : StorageNodeClient.Config) (refresh : Bool) (s : Store) (attempts : List Attempt) (hkeyed : Keyed db) (hfound : findObject db name = .ok obj) :
    Keyed (retry config refresh name attempts (db, s)).1 ∧
      ∃ o, findObject (retry config refresh name attempts (db, s)).1 name = .ok o ∧ o.objectId = obj.objectId := by
  induction attempts generalizing db s obj with
  | nil => exact ⟨hkeyed, obj, hfound, rfl⟩
  | cons a attempts ih =>
    obtain ⟨hnext, o, ho, hid⟩ := deleteObject_keeps config refresh s a hkeyed hfound
    obtain ⟨hend, o', ho', hid'⟩ := ih (GatewayService.deleteObject config refresh name a db s).2.2 hnext ho
    exact ⟨hend, o', ho', hid'.trans hid⟩

lemma retry_deleted (attempts : List Attempt) (hfound : findObject db name = .ok obj) (hgone : obj.state = .deleted) :
    retry config refresh name attempts (db, s) = (db, s) := by
  induction attempts with
  | nil => rfl
  | cons a attempts ih =>
    rw [retry, deleteObject_deleted a hfound hgone]
    exact ih

lemma retry_concat (attempts : List Attempt) (a : Attempt) (w : Db × Store) :
    retry config refresh name (attempts ++ [a]) w =
      (GatewayService.deleteObject config refresh name a (retry config refresh name attempts w).1
        (retry config refresh name attempts w).2).2 := by
  induction attempts generalizing w with
  | nil => rfl
  | cons b attempts ih => exact ih _

/-- A row is left when no call has had it acknowledged. -/
lemma mem_rowsOf_retry (attempts : List Attempt) (hkeyed : Keyed db) (hfound : findObject db name = .ok obj)
    (hlive : obj.state ≠ .deleted) (r : Replica) :
    r ∈ rowsOf (retry config refresh name attempts (db, s)).1 obj.objectId ↔
      r ∈ rowsOf db obj.objectId ∧ ∀ b ∈ attempts, ¬Acknowledged config (b.transport r.replicaId) := by
  induction attempts generalizing db s obj with
  | nil => simp [retry]
  | cons a attempts ih =>
    have hcall := (deleteObject_live config refresh a s hkeyed hfound hlive).1
    have hnext := findObject_settled (a.outcome config) hfound
    rw [List.forall_mem_cons, ← outcome_eq_none_iff (a := a)]
    by_cases hcleared : Cleared (a.outcome config) obj.objectId db
    · have hgone : retry config refresh name (a :: attempts) (db, s) =
          (GatewayService.deleteObject config refresh name a db s).2 :=
        retry_deleted attempts (hcall ▸ hnext) (by simp [hcleared, Object.enter])
      rw [hgone, hcall, rowsOf_settled, List.mem_filter, decide_eq_true_eq]
      refine and_congr_right fun hr => iff_of_false ?_ ?_
      · exact fun h => h (hcleared r hr)
      · exact fun h => h.1 (hcleared r hr)
    · rw [if_neg hcleared] at hnext
      have hrest := ih (s := (GatewayService.deleteObject config refresh name a db s).2.2) (hcall ▸ hkeyed.settled)
        (hcall ▸ hnext) (by simp [Object.enter])
      change r ∈ rowsOf (retry config refresh name attempts
        (GatewayService.deleteObject config refresh name a db s).2).1 obj.objectId ↔ _ at hrest
      rw [retry, hrest]
      change r ∈ rowsOf (GatewayService.deleteObject config refresh name a db s).2.1 obj.objectId ∧ _ ↔ _
      rw [hcall, rowsOf_settled, List.mem_filter, decide_eq_true_eq, and_assoc]

/-- Retried deletions converge without losing track of a copy, whatever the nodes answer and in whatever order. -/
theorem retried_deletion_converges (config : StorageNodeClient.Config) (refresh : Bool) (name : Arg String) (db : Db)
    (s : Store) (obj : Object) (hkeyed : Keyed db) (hfound : findObject db name = .ok obj) (attempts : List Attempt)
    (a : Attempt) :
    ∃ was now, findObject (retry config refresh name attempts (db, s)).1 name = .ok was ∧
      findObject (retry config refresh name (attempts ++ [a]) (db, s)).1 name = .ok now ∧
      -- a row disappears only in a call in which its node acknowledged
      (∀ r ∈ rowsOf (retry config refresh name attempts (db, s)).1 obj.objectId,
        r ∉ rowsOf (retry config refresh name (attempts ++ [a]) (db, s)).1 obj.objectId →
          Acknowledged config (a.transport r.replicaId)) ∧
      -- a call that raises
      (∀ e, (GatewayService.deleteObject config refresh name a (retry config refresh name attempts (db, s)).1
          (retry config refresh name attempts (db, s)).2).1 = .error e →
        now.state = .deleting ∧
          ∀ r, r ∈ rowsOf (retry config refresh name (attempts ++ [a]) (db, s)).1 obj.objectId ↔
            r ∈ rowsOf (retry config refresh name attempts (db, s)).1 obj.objectId ∧
              ¬Acknowledged config (a.transport r.replicaId)) ∧
      -- the call that makes the object `DELETED`
      (was.state ≠ .deleted →
        (now.state = .deleted ↔ ∀ r ∈ rowsOf (retry config refresh name attempts (db, s)).1 obj.objectId,
          Acknowledged config (a.transport r.replicaId)) ∧
        (now.state = .deleted → rowsOf (retry config refresh name (attempts ++ [a]) (db, s)).1 obj.objectId = [])) ∧
      -- the calls after it
      (was.state = .deleted → retry config refresh name (attempts ++ [a]) (db, s) =
        retry config refresh name attempts (db, s)) ∧
      -- and over the whole sequence
      (obj.state ≠ .deleted → ∀ r, r ∈ rowsOf (retry config refresh name attempts (db, s)).1 obj.objectId ↔
        r ∈ rowsOf db obj.objectId ∧ ∀ b ∈ attempts, ¬Acknowledged config (b.transport r.replicaId)) := by
  obtain ⟨hkept, was, hwas, hid⟩ := retry_keeps config refresh s attempts hkeyed hfound
  have hrun : obj.state ≠ .deleted → ∀ r, r ∈ rowsOf (retry config refresh name attempts (db, s)).1 obj.objectId ↔
      r ∈ rowsOf db obj.objectId ∧ ∀ b ∈ attempts, ¬Acknowledged config (b.transport r.replicaId) :=
    fun hlive => mem_rowsOf_retry attempts hkeyed hfound hlive
  rw [retry_concat]
  generalize retry config refresh name attempts (db, s) = before at hkept hwas hrun ⊢
  obtain ⟨db₁, s₁⟩ := before
  rw [← hid] at hrun ⊢
  by_cases hgone : was.state = .deleted
  · rw [deleteObject_deleted a hwas hgone]
    refine ⟨was, was, hwas, hwas, fun r hr hout => absurd hr hout, fun e he => ?_, fun hlive => absurd hgone hlive,
      fun _ => rfl, hrun⟩
    cases he
  · obtain ⟨hcall, hraise⟩ := deleteObject_live config refresh a s₁ hkept hwas hgone
    have hnow := findObject_settled (a.outcome config) hwas
    have hcleared : Cleared (a.outcome config) was.objectId db₁ ↔
        ∀ r ∈ rowsOf db₁ was.objectId, Acknowledged config (a.transport r.replicaId) :=
      forall₂_congr fun r _ => outcome_eq_none_iff
    have hleft : ∀ r, r ∈ rowsOf (settled (a.outcome config) was.objectId db₁) was.objectId ↔
        r ∈ rowsOf db₁ was.objectId ∧ ¬Acknowledged config (a.transport r.replicaId) := by
      intro r
      rw [rowsOf_settled, List.mem_filter, decide_eq_true_eq, ← outcome_eq_none_iff]
    rw [hcall]
    refine ⟨was, _, hwas, hnow, fun r hr hout => ?_, fun e he => ⟨?_, hleft⟩, fun _ => ⟨?_, fun hdone => ?_⟩,
      fun h => absurd h hgone, hrun⟩
    · by_contra hack
      exact hout ((hleft r).mpr ⟨hr, hack⟩)
    · simp only [Object.enter, if_neg (hraise.mp ⟨e, he⟩)]
    · rw [← hcleared]
      simp only [Object.enter]
      split_ifs with h
      · exact iff_of_true rfl h
      · exact iff_of_false (by rintro ⟨⟩) h
    · have hall : Cleared (a.outcome config) was.objectId db₁ := by
        by_contra h
        simp [Object.enter, h] at hdone
      rw [List.eq_nil_iff_forall_not_mem]
      intro r hr
      obtain ⟨hmem, hack⟩ := (hleft r).mp hr
      exact hack (hcleared.mp hall r hmem)

end Retries

def twoCopies : Db where
  objects := [{ objectId := ⟨0⟩, name := "report", currentVersionId := some ⟨1⟩ }]
  versions := [⟨⟨1⟩, ⟨0⟩, 1, 5, zeroChecksum, .committed, none⟩]
  nodes := [{ nodeId := "a", address := "http://a" }, { nodeId := "b", address := "http://b" }]
  replicas := [{ replicaId := ⟨2⟩, versionId := ⟨1⟩, nodeId := "a", status := .healthy },
    { replicaId := ⟨3⟩, versionId := ⟨1⟩, nodeId := "b", status := .healthy }]
  nextId := 4

/-- Node `b` does not answer the first call. -/
def firstCall : Attempt where
  transport i _ := if i = ⟨2⟩ then .response { status := 204, body := .text } else .timeout
  order := [1]

/-- Now it answers that it does not hold the version. -/
def secondCall : Attempt where
  transport _ _ := .response { status := 404, body := .text }

lemma keyed_twoCopies : Keyed twoCopies where
  objects := by decide
  replicas := by decide
  nodes := by decide

theorem second_call_deletes : Keyed twoCopies ∧
    ∃ now, findObject (retry StorageNodeClient.threeAttempts true (.value "report") [firstCall, secondCall]
        (twoCopies, fun _ _ => none)).1 (.value "report") = .ok now ∧
      now.state = .deleted ∧
      rowsOf (retry StorageNodeClient.threeAttempts true (.value "report") [firstCall, secondCall]
        (twoCopies, fun _ _ => none)).1 ⟨0⟩ = [] := by
  obtain ⟨was, now, hwas, hnow, -, -, hdelete, -⟩ :=
    retried_deletion_converges StorageNodeClient.threeAttempts true (.value "report") twoCopies (fun _ _ => none)
      { objectId := ⟨0⟩, name := "report", currentVersionId := some ⟨1⟩ } keyed_twoCopies (by decide +kernel)
      [firstCall] secondCall
  have hfirst : (findObject (retry StorageNodeClient.threeAttempts true (.value "report") [firstCall]
      (twoCopies, fun _ _ => none)).1 (.value "report")).map Object.state = .ok .deleting := by decide +kernel
  have hstate : was.state = .deleting := by
    rw [hwas] at hfirst
    exact Except.ok.inj hfirst
  have hlive : was.state ≠ .deleted := by
    rw [hstate]
    decide
  obtain ⟨hall, hrows⟩ := hdelete hlive
  have hdeleted := hall.mpr fun r _ => ⟨0, by decide, _, ⟨rfl, by decide, by simp⟩, Or.inr rfl⟩
  exact ⟨keyed_twoCopies, now, hnow, hdeleted, hrows hdeleted⟩

end Vault.Gateway
