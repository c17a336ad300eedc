import Vault.Metadata.WellFormed

/-! The batch operations on replica rows against the single ones, called for each argument in turn. The batch checks
every argument first and against one state, the single calls see what the earlier ones have done. -/

namespace Vault.Metadata

open Vault.Common Vault.Lib Vault.Lib.Transaction Vault.Lib.Transaction.Tx

section Creating

variable {db db' : Db} {v : UUID} {n m : String} {names : List String} {rs : List Replica}

lemma validateNonEmpty_ok {message : String} {a : Arg String} :
    validateNonEmpty message a = .ok n ↔ ∃ s, a = .value s ∧ strip s ≠ "" ∧ n = strip s := by
  cases a with
  | illTyped => simp [validateNonEmpty]
  | value s =>
    simp only [validateNonEmpty]
    split_ifs with h
    · simp [h]
    · constructor
      · rintro heq
        cases heq
        exact ⟨s, rfl, h, rfl⟩
      · rintro ⟨t, ht, -, rfl⟩
        cases ht
        rfl

lemma validateNodeIds_cons {a : Arg String} {as : List (Arg String)} :
    validateNodeIds (a :: as) = .ok names ↔
      ∃ n ns, validateNodeId a = .ok n ∧ validateNodeIds as = .ok ns ∧ names = n :: ns := by
  have hsame : ∀ n, validateNonEmpty "node_ids must contain only non-empty strings" a = .ok n ↔
      validateNodeId a = .ok n := fun n => validateNonEmpty_ok.trans validateNonEmpty_ok.symm
  simp only [validateNodeIds, ← hsame]
  cases validateNonEmpty "node_ids must contain only non-empty strings" a with
  | error e => simp [bind, Except.bind]
  | ok n =>
    cases validateNodeIds as with
    | error e => simp [bind, Except.bind]
    | ok ns => simp [bind, Except.bind, pure, Except.pure, eq_comm]

/-- Rows of the version can be created on these nodes. -/
def Creatable (v : UUID) (names : List String) (db : Db) : Prop :=
  names.Nodup ∧ ∀ n ∈ names, (db.node? n).isSome ∧ db.replicaOn? v n = none

lemma replicaOn?_insertReplica_eq_none :
    (insertReplica v n db).replicaOn? v m = none ↔ db.replicaOn? v m = none ∧ m ≠ n := by
  simp only [Db.replicaOn?, insertReplica, Table.lookup_eq_none, List.mem_append, List.mem_singleton]
  constructor
  · intro h
    exact ⟨fun r hr => h r (Or.inl hr), fun hm => h _ (Or.inr rfl) (by rw [hm])⟩
  · rintro ⟨hold, hne⟩ r (hr | rfl)
    · exact hold r hr
    · intro hkey
      exact hne (Prod.mk.inj hkey).2.symm

lemma creatable_cons :
    Creatable v (n :: names) db ↔
      ((db.node? n).isSome ∧ db.replicaOn? v n = none) ∧ Creatable v names (insertReplica v n db) := by
  simp only [Creatable, List.nodup_cons, List.forall_mem_cons, replicaOn?_insertReplica_eq_none]
  constructor
  · rintro ⟨⟨hout, hnodup⟩, hn, hrest⟩
    refine ⟨hn, hnodup, fun m hm => ⟨(hrest m hm).1, (hrest m hm).2, ?_⟩⟩
    rintro rfl
    exact hout hm
  · rintro ⟨hn, hnodup, hrest⟩
    refine ⟨⟨fun hm => ?_, hnodup⟩, hn, fun m hm => ⟨(hrest m hm).1, (hrest m hm).2.1⟩⟩
    exact (hrest n hm).2.2 rfl

lemma insertReplicas_cons_ok : (insertReplicas v (n :: names)).run db = .ok (rs, db') ↔
    ∃ rs', (insertReplicas v names).run (insertReplica v n db) = .ok (rs', db') ∧
      rs = { replicaId := db.newUuid, versionId := v, nodeId := n } :: rs' := by
  simp [insertReplicas]

lemma createReplica_value_ok {a : Arg String} {r : Replica} :
    (createReplica (.value v) a).run db = .ok (r, db') ↔
      ∃ n, validateNodeId a = .ok n ∧ (db.version? v).isSome ∧ ((db.node? n).isSome ∧ db.replicaOn? v n = none) ∧
        r = { replicaId := db.newUuid, versionId := v, nodeId := n } ∧ db' = insertReplica v n db := by
  simp [createReplica, bindArg, and_assoc]

lemma createReplicas_value_ok {as : List (Arg String)} :
    (createReplicas (.value v) as).run db = .ok (rs, db') ↔
      as ≠ [] ∧ ∃ names, validateNodeIds as = .ok names ∧ (db.version? v).isSome ∧ Creatable v names db ∧
        (insertReplicas v names).run db = .ok (rs, db') := by
  simp only [createReplicas, validateTyped, Creatable, Option.isSome_iff_ne_none]
  simp
  intro _
  refine exists_congr fun names => ?_
  constructor
  · rintro ⟨hnames, hnodup, hversion, hnodes, hfree, hrun⟩
    exact ⟨hnames, Option.isSome_iff_ne_none.mp hversion, ⟨hnodup, fun n hn => ⟨hnodes n hn, hfree n hn⟩⟩, hrun⟩
  · rintro ⟨hnames, hversion, ⟨hnodup, hboth⟩, hrun⟩
    exact ⟨hnames, hnodup, Option.isSome_iff_ne_none.mpr hversion, fun n hn => (hboth n hn).1, fun n hn => (hboth n hn).2, hrun⟩

lemma inOrder_createReplica {as : List (Arg String)} (hv : (db.version? v).isSome) :
    inOrder (createReplica (.value v)) as db = (.ok rs, db') ↔
      ∃ names, validateNodeIds as = .ok names ∧ Creatable v names db ∧
        (insertReplicas v names).run db = .ok (rs, db') := by
  induction as generalizing db rs with
  | nil =>
    rw [inOrder_nil_ok]
    constructor
    · rintro ⟨rfl, rfl⟩
      exact ⟨[], rfl, ⟨List.nodup_nil, by simp⟩, rfl⟩
    · rintro ⟨names, hnames, -, hrun⟩
      cases hnames
      cases hrun
      exact ⟨rfl, rfl⟩
  | cons a as ih =>
    have hnext : ∀ n, ((insertReplica v n db).version? v).isSome := fun _ => hv
    simp only [inOrder_cons_ok, createReplica_value_ok, validateNodeIds_cons]
    constructor
    · rintro ⟨r, rs', _, ⟨n, hn, -, hfree, rfl, rfl⟩, hrest, rfl⟩
      obtain ⟨names, hnames, hcreate, hrun⟩ := (ih (hnext n)).mp hrest
      exact ⟨n :: names, ⟨n, names, hn, hnames, rfl⟩, creatable_cons.mpr ⟨hfree, hcreate⟩,
        insertReplicas_cons_ok.mpr ⟨rs', hrun, rfl⟩⟩
    · rintro ⟨_, ⟨n, names, hn, hnames, rfl⟩, hcreate, hrun⟩
      obtain ⟨hfree, hrest⟩ := creatable_cons.mp hcreate
      obtain ⟨rs', hrun', rfl⟩ := insertReplicas_cons_ok.mp hrun
      exact ⟨_, rs', _, ⟨n, hn, hv, hfree, rfl, rfl⟩, (ih (hnext n)).mpr ⟨names, hnames, hrest, hrun'⟩, rfl⟩

/-- Creating rows in one call is creating them one by one. -/
lemma createReplicas_ok_iff {v : Arg UUID} {as : List (Arg String)} (hne : as ≠ []) :
    (createReplicas v as).run db = .ok (rs, db') ↔ inOrder (createReplica v) as db = (.ok rs, db') := by
  cases v with
  | illTyped =>
    obtain ⟨a, as, rfl⟩ := List.exists_cons_of_ne_nil hne
    simp [createReplicas, validateTyped, inOrder_cons_ok, createReplica, bindArg]
  | value v =>
    by_cases hv : (db.version? v).isSome
    · simp only [createReplicas_value_ok, inOrder_createReplica hv, hne, hv, ne_eq, not_false_eq_true, true_and]
    · obtain ⟨a, as, rfl⟩ := List.exists_cons_of_ne_nil hne
      simp [createReplicas_value_ok, inOrder_cons_ok, createReplica_value_ok, hv]

end Creating

section Setting

variable {db db' : Db} {state : ReplicaState} {i : UUID} {ids : List UUID}

/-- The row is there and may enter the state, or is in it. -/
def Settable (state : ReplicaState) (db : Db) (i : UUID) : Prop :=
  ∃ r ∈ db.replicas, r.replicaId = i ∧ (r.status = state ∨ state ∈ replicaStateTransitions r.status)

lemma bindIds_cons {a : Arg UUID} {as : List (Arg UUID)} :
    bindIds (a :: as) = .ok ids ↔ ∃ i is, a = .value i ∧ bindIds as = .ok is ∧ ids = i :: is := by
  cases a with
  | illTyped => simp [bindIds, validateTyped, bind, Except.bind]
  | value i =>
    cases has : bindIds as with
    | error e => simp [bindIds, validateTyped, has, bind, Except.bind]
    | ok is => simp [bindIds, validateTyped, has, bind, Except.bind, pure, Except.pure, eq_comm]

lemma checkEdges_iff {rs : List Replica} : checkEdges state rs = .ok () ↔
    ∀ r ∈ rs, r.status = state ∨ state ∈ replicaStateTransitions r.status := by
  induction rs with
  | nil => simp [checkEdges]
  | cons r rs ih =>
    rw [checkEdges, List.forall_mem_cons]
    split_ifs with h
    · simp [h, ih]
    · simp [h]

/-- `len(replicas) == len(set(ids))` says that every id names a row. -/
lemma length_eq_dedup_iff (h : (db.replicas.map Replica.replicaId).Nodup) :
    (db.replicas.filter (fun r => r.replicaId ∈ ids)).length = ids.dedup.length ↔
      ∀ i ∈ ids, ∃ r ∈ db.replicas, r.replicaId = i := by
  have hfound : ((db.replicas.filter (fun r => r.replicaId ∈ ids)).map Replica.replicaId).Nodup :=
    h.sublist (List.filter_sublist.map _)
  have hsub : List.Subperm ((db.replicas.filter (fun r => r.replicaId ∈ ids)).map Replica.replicaId) ids.dedup := by
    apply List.subperm_of_subset hfound
    intro i hi
    obtain ⟨r, hr, rfl⟩ := List.mem_map.mp hi
    simpa using (List.mem_filter.mp hr).2
  rw [← List.length_map (f := Replica.replicaId)]
  constructor
  · intro hlen i hi
    have hperm := hsub.perm_of_length_le hlen.ge
    obtain ⟨r, hr, hid⟩ := List.mem_map.mp (hperm.mem_iff.mpr (List.mem_dedup.mpr hi))
    exact ⟨r, List.mem_of_mem_filter hr, hid⟩
  · intro hall
    apply hsub.length_le.antisymm
    apply (List.subperm_of_subset (List.nodup_dedup ids) fun i hi => ?_).length_le
    obtain ⟨r, hr, rfl⟩ := hall i (List.mem_dedup.mp hi)
    exact List.mem_map.mpr ⟨r, List.mem_filter.mpr ⟨hr, by simpa using List.mem_dedup.mp hi⟩, rfl⟩

lemma settable_forall_iff (h : (db.replicas.map Replica.replicaId).Nodup) :
    (∀ i ∈ ids, Settable state db i) ↔
      (db.replicas.filter (fun r => r.replicaId ∈ ids)).length = ids.dedup.length ∧
        checkEdges state (db.replicas.filter (fun r => r.replicaId ∈ ids)) = .ok () := by
  rw [length_eq_dedup_iff h, checkEdges_iff]
  constructor
  · intro hall
    refine ⟨fun i hi => ?_, fun r hr => ?_⟩
    · obtain ⟨r, hr, hid, -⟩ := hall i hi
      exact ⟨r, hr, hid⟩
    · obtain ⟨hr, hi⟩ := List.mem_filter.mp hr
      obtain ⟨s, hs, hid, hedge⟩ := hall r.replicaId (by simpa using hi)
      rwa [Table.eq_of_key h hr hs hid.symm]
  · rintro ⟨hfound, hedges⟩ i hi
    obtain ⟨r, hr, rfl⟩ := hfound i hi
    exact ⟨r, hr, rfl, hedges r (List.mem_filter.mpr ⟨hr, by simpa using hi⟩)⟩

lemma setStatuses_nil : setStatuses [] state db = db := by
  simp [setStatuses]

lemma setStatuses_cons : setStatuses (i :: ids) state db = setStatuses ids state (setStatuses [i] state db) := by
  simp only [setStatuses, List.map_map]
  congr 1
  apply List.map_congr_left
  intro r _
  by_cases hi : r.replicaId = i
  · simp [hi, Replica.enter]
  · simp [hi]

lemma nodup_setStatuses (h : (db.replicas.map Replica.replicaId).Nodup) :
    ((setStatuses ids state db).replicas.map Replica.replicaId).Nodup := by
  have hkeys : (setStatuses ids state db).replicas.map Replica.replicaId = db.replicas.map Replica.replicaId := by
    simp only [setStatuses, List.map_map]
    apply List.map_congr_left
    intro r _
    simp only [Function.comp]
    split_ifs
    · rfl
    · rfl
  rwa [hkeys]

/-- A call for one row leaves open what the calls for the others may do. -/
lemma settable_setStatuses {j : UUID} (hi : Settable state db i) :
    Settable state (setStatuses [i] state db) j ↔ Settable state db j := by
  constructor
  · rintro ⟨s, hs, rfl, hedge⟩
    obtain ⟨r, hr, rfl⟩ := List.mem_map.mp hs
    split_ifs at hedge ⊢ with hid
    · rw [Replica.enter, List.mem_singleton.mp hid]
      exact hi
    · exact ⟨r, hr, rfl, hedge⟩
  · rintro ⟨r, hr, rfl, hedge⟩
    have hmem : (if r.replicaId ∈ [i] then r.enter state else r) ∈ (setStatuses [i] state db).replicas :=
      List.mem_map.mpr ⟨r, hr, rfl⟩
    split_ifs at hmem with hid
    · exact ⟨_, hmem, rfl, Or.inl rfl⟩
    · exact ⟨_, hmem, rfl, hedge⟩

lemma amendReplica_enter : db.amendReplica i (Replica.enter state) = setStatuses [i] state db := by
  simp [Db.amendReplica, Table.amend, setStatuses]

lemma setStatuses_fixed (h : (db.replicas.map Replica.replicaId).Nodup) {r : Replica} (hr : r ∈ db.replicas)
    (hstatus : r.status = state) : setStatuses [r.replicaId] state db = db := by
  rw [← amendReplica_enter, Db.amendReplica, Table.amend_fixed h hr]
  rw [← hstatus]
  rfl

lemma setReplicaState_value_ok (h : (db.replicas.map Replica.replicaId).Nodup) (hne : state ≠ .healthy)
    {a : Arg UUID} :
    (∃ r, (setReplicaState a (.value state)).run db = .ok (r, db')) ↔
      ∃ i, a = .value i ∧ Settable state db i ∧ db' = setStatuses [i] state db := by
  cases a with
  | illTyped => simp [setReplicaState, validateTyped, bindArg]
  | value i =>
    simp [setReplicaState, validateTyped, bindArg, hne]
    constructor
    · rintro ⟨w, r, hr, ⟨hstatus, -, rfl⟩ | ⟨-, hedge, -, rfl⟩⟩
      · obtain ⟨hmem, rfl⟩ := (Table.lookup_iff h).mp hr
        exact ⟨⟨r, hmem, rfl, Or.inl hstatus⟩, (setStatuses_fixed h hmem hstatus).symm⟩
      · obtain ⟨hmem, rfl⟩ := (Table.lookup_iff h).mp hr
        exact ⟨⟨r, hmem, rfl, Or.inr hedge⟩, amendReplica_enter⟩
    · rintro ⟨⟨r, hmem, rfl, hedge⟩, rfl⟩
      have hr : db.replica? r.replicaId = some r := Table.lookup_of_mem h hmem
      by_cases hstatus : r.status = state
      · exact ⟨r, r, hr, Or.inl ⟨hstatus, rfl, setStatuses_fixed h hmem hstatus⟩⟩
      · exact ⟨r.enter state, r, hr, Or.inr ⟨hstatus, hedge.resolve_left hstatus, rfl, amendReplica_enter.symm⟩⟩

lemma inOrder_setReplicaState (h : (db.replicas.map Replica.replicaId).Nodup) (hne : state ≠ .healthy)
    {as : List (Arg UUID)} :
    (∃ rs, inOrder (fun a => setReplicaState a (.value state)) as db = (.ok rs, db')) ↔
      ∃ ids, bindIds as = .ok ids ∧ (∀ i ∈ ids, Settable state db i) ∧ db' = setStatuses ids state db := by
  induction as generalizing db with
  | nil =>
    simp only [inOrder_nil_ok]
    constructor
    · rintro ⟨rs, -, rfl⟩
      exact ⟨[], rfl, by simp, setStatuses_nil.symm⟩
    · rintro ⟨ids, hids, -, rfl⟩
      cases hids
      exact ⟨[], rfl, setStatuses_nil⟩
  | cons a as ih =>
    simp only [inOrder_cons_ok, bindIds_cons]
    constructor
    · rintro ⟨_, r, rs, u, hcall, hrest, rfl⟩
      obtain ⟨i, rfl, hi, rfl⟩ := (setReplicaState_value_ok h hne).mp ⟨r, hcall⟩
      obtain ⟨ids, hids, hall, rfl⟩ := (ih (nodup_setStatuses h)).mp ⟨rs, hrest⟩
      refine ⟨i :: ids, ⟨i, ids, rfl, hids, rfl⟩, ?_, setStatuses_cons.symm⟩
      rw [List.forall_mem_cons]
      exact ⟨hi, fun j hj => (settable_setStatuses hi).mp (hall j hj)⟩
    · rintro ⟨_, ⟨i, ids, rfl, hids, rfl⟩, hall, rfl⟩
      rw [List.forall_mem_cons] at hall
      obtain ⟨hi, hall⟩ := hall
      obtain ⟨r, hcall⟩ := (setReplicaState_value_ok h hne).mpr ⟨i, rfl, hi, rfl⟩
      have hnext := (nodup_setStatuses h : ((setStatuses [i] state db).replicas.map Replica.replicaId).Nodup)
      obtain ⟨rs, hrest⟩ := (ih hnext).mpr
        ⟨ids, hids, fun j hj => (settable_setStatuses hi).mpr (hall j hj), setStatuses_cons⟩
      exact ⟨r :: rs, r, rs, _, hcall, hrest, rfl⟩

lemma setReplicaStates_value_ok (h : (db.replicas.map Replica.replicaId).Nodup) (hne : state ≠ .healthy)
    {as : List (Arg UUID)} :
    (∃ rs, (setReplicaStates as (.value state)).run db = .ok (rs, db')) ↔
      ∃ ids, bindIds as = .ok ids ∧ (∀ i ∈ ids, Settable state db i) ∧ db' = setStatuses ids state db := by
  simp only [settable_forall_iff h]
  simp [setReplicaStates, validateTyped, hne]
  constructor
  · rintro ⟨rs, ⟨rfl, -, rfl⟩ | ⟨-, ids, hids, hlen, ⟨_, hedges⟩, -, rfl⟩⟩
    · exact ⟨[], rfl, ⟨by simp, by simp [checkEdges]⟩, setStatuses_nil.symm⟩
    · exact ⟨ids, hids, ⟨hlen, hedges⟩, rfl⟩
  · rintro ⟨ids, hids, ⟨hlen, hedges⟩, rfl⟩
    by_cases has : as = []
    · subst has
      cases hids
      exact ⟨[], Or.inl ⟨rfl, rfl, setStatuses_nil⟩⟩
    · exact ⟨_, Or.inr ⟨has, ids, hids, hlen, ⟨(), hedges⟩, rfl, rfl⟩⟩

end Setting

/-- The batch operations agree with the single ones, called for each argument in order: they succeed together and leave
the same rows, and a batch that fails changes nothing. -/
theorem batches_agree_with_single_calls (db : Db) (h : (db.replicas.map Replica.replicaId).Nodup) :
    (∀ (v : Arg UUID) (nodeIds : List (Arg String)), nodeIds ≠ [] →
      (∀ rs db', atomic (createReplicas v nodeIds) db = (.ok rs, db') ↔
        inOrder (createReplica v) nodeIds db = (.ok rs, db')) ∧
      ∀ e, (atomic (createReplicas v nodeIds) db).1 = .error e → (atomic (createReplicas v nodeIds) db).2 = db) ∧
    ∀ state : ReplicaState, state ≠ .healthy → ∀ replicaIds : List (Arg UUID),
      (∀ db', (∃ rs, atomic (setReplicaStates replicaIds (.value state)) db = (.ok rs, db')) ↔
        ∃ rs, inOrder (fun i => setReplicaState i (.value state)) replicaIds db = (.ok rs, db')) ∧
      ∀ e, (atomic (setReplicaStates replicaIds (.value state)) db).1 = .error e →
        (atomic (setReplicaStates replicaIds (.value state)) db).2 = db := by
  refine ⟨fun v nodeIds hne => ⟨fun rs db' => ?_, fun e => atomic_error⟩, fun state hstate replicaIds =>
    ⟨fun db' => ?_, fun e => atomic_error⟩⟩
  · rw [atomic_eq_ok, createReplicas_ok_iff hne]
  · simp only [atomic_eq_ok]
    rw [setReplicaStates_value_ok h hstate, inOrder_setReplicaState h hstate]

def twoNodes : Db where
  versions := [⟨⟨1⟩, ⟨0⟩, 1, 5, ⟨List.replicate 64 0, length_zeros⟩, .preparing, none⟩]
  nodes := [{ nodeId := "a", address := "http://a" }, { nodeId := "b", address := "http://b" }]
  nextId := 2

theorem two_rows_created_alike :
    (twoNodes.replicas.map Replica.replicaId).Nodup ∧
      ∃ rs db', inOrder (createReplica (.value ⟨1⟩)) [.value " a ", .value "b"] twoNodes = (.ok rs, db') ∧
        db'.replicas.map Replica.nodeId = ["a", "b"] := by
  have hkeys : (twoNodes.replicas.map Replica.replicaId).Nodup := by decide
  have hbatch : atomic (createReplicas (.value ⟨1⟩) [.value " a ", .value "b"]) twoNodes =
      (.ok [⟨⟨2⟩, ⟨1⟩, "a", .pending, none, none, none⟩, ⟨⟨3⟩, ⟨1⟩, "b", .pending, none, none, none⟩],
        insertReplica ⟨1⟩ "b" (insertReplica ⟨1⟩ "a" twoNodes)) := by decide +kernel
  have hne : ([.value " a ", .value "b"] : List (Arg String)) ≠ [] := by simp
  refine ⟨hkeys, _, _, ((batches_agree_with_single_calls twoNodes hkeys).1 _ _ hne).1 _ _ |>.mp hbatch, ?_⟩
  decide

end Vault.Metadata
