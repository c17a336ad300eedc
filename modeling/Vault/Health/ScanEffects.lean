import Vault.Health.HeartbeatEffects
import Vault.Integrity.Detection

/-! What a scan of the failure detector does, row by row. It reads each node once and moves
it along one edge at most; the healthy replicas of committed versions on the nodes that it gives up become
`UNAVAILABLE`, and the repairs that it schedules in between touch neither nodes nor replicas. -/

namespace Vault.Health

open Vault.Common Vault.Metadata Vault.Storage Vault.Lib Vault.Lib.Script Vault.Lib.Transaction
open Vault.Lib.Transaction.Tx
open Vault.Integrity (committedOn)

variable {ρ : Type}

/-- The tables that a repair schedule leaves alone. -/
structure SameRows (db db' : Db) : Prop where
  nodes : db'.nodes = db.nodes
  replicas : db'.replicas = db.replicas
  versions : db'.versions = db.versions
  objects : db'.objects = db.objects

lemma SameRows.refl (db : Db) : SameRows db db := ⟨rfl, rfl, rfl, rfl⟩

lemma SameRows.of_scheduling {db db' : Db} {i : UUID} {rf : ℤ} {reason : Arg String} {preferred : Option Replica}
    {r : Except Failure (Option RepairJob)} (h : Repair.Scheduling db i rf reason preferred r db') : SameRows db db' := by
  cases h <;> exact ⟨rfl, rfl, rfl, rfl⟩

/-- A schedule without a preferred replica raises nothing but a `VaultError`, and adds at most a job. -/
lemma wp_schedule {rf : ℕ} (hrf : 1 ≤ rf) (i : UUID) (reason : Arg String) (p : Watch ρ) :
    wp any (fun r q => SameRows p.session.view q.session.view ∧ ∀ e, r = .error e → ∃ x, e = .vault x)
      (Repair.schedule i rf reason none) p := by
  refine wp_mono ?_ (Repair.wp_schedule i rf reason none p)
  rintro r q ⟨hq, -⟩
  refine ⟨.of_scheduling hq, fun e he => ?_⟩
  subst he
  exact hq.vault (by exact_mod_cast hrf) fun _ _ => rfl

lemma wp_scheduleRepair {rf : ℕ} (hrf : 1 ≤ rf) (replica : Replica) (p : Watch ρ) :
    wp any (Post.seq (fun _ q => SameRows p.session.view q.session.view) fun _ _ => False)
      (scheduleRepair rf replica) p := by
  refine wp_handle.mpr (wp_bind.mpr (wp_mono ?_ (wp_schedule hrf replica.versionId (.value "node-unavailable") p)))
  rintro r q ⟨hq, hvault⟩
  cases r with
  | ok job => exact wp_pure.mpr hq
  | error e =>
    obtain ⟨x, rfl⟩ := hvault e rfl
    exact wp_pure.mpr hq

/-- The replica is of a committed version. -/
def Committed (db : Db) (r : Replica) : Prop := ∃ v ∈ db.version? r.versionId, v.state = .committed

instance (db : Db) (r : Replica) : Decidable (Committed db r) := inferInstanceAs (Decidable (∃ v ∈ _, _))

lemma mem_abandoned {db : Db} {nodeId : String} {r : Replica} :
    r ∈ byVersionId ((committedOn db nodeId).filter (fun r => r.status = .healthy)) ↔
      r ∈ db.replicas ∧ r.nodeId = nodeId ∧ Committed db r ∧ r.status = .healthy := by
  simp only [byVersionId, List.mem_mergeSort, List.mem_filter, committedOn, decide_eq_true_eq, and_assoc]
  rfl

/-- Of the replicas to be given up those in `rest` are still as they were. -/
structure Abandoning (db : Db) (given rest : List Replica) (view : Db) : Prop where
  nodes : view.nodes = db.nodes
  replicas : view.replicas = db.replicas.map (fun r => if r ∈ given ∧ r ∉ rest then r.enter .unavailable else r)
  versions : view.versions = db.versions
  objects : view.objects = db.objects

lemma amend_map {α κ : Type} [DecidableEq κ] {key : α → κ} {k : κ} {f g h : α → α} {rows : List α}
    (hrow : ∀ r ∈ rows, (if key (g r) = k then f (g r) else g r) = h r) :
    Table.amend key k f (rows.map g) = rows.map h := by
  rw [Table.amend, List.map_map]
  exact List.map_congr_left hrow

lemma Abandoning.step {db : Db} {given rest : List Replica} {replica : Replica} {rf : ℕ} (hrf : 1 ≤ rf)
    (hids : (db.replicas.map Replica.replicaId).Nodup) (hgiven : ∀ r ∈ given, r ∈ db.replicas ∧ r.status = .healthy)
    (hrest : replica :: rest ⊆ given) (hnodup : (replica :: rest).Nodup) {p : Watch ρ}
    (h : Abandoning db given (replica :: rest) p.session.view) :
    wp any (Post.seq (fun _ q => Abandoning db given rest q.session.view) fun _ _ => False)
      (abandonReplica rf replica) p := by
  have hmem : replica ∈ given := hrest List.mem_cons_self
  obtain ⟨hrow, hhealthy⟩ := hgiven replica hmem
  have hself : (if replica ∈ given ∧ replica ∉ replica :: rest then replica.enter .unavailable else replica) = replica :=
    if_neg (by simp)
  have hkeys : (p.session.view.replicas.map Replica.replicaId).Nodup := by
    rw [h.replicas, List.map_map]
    refine (congrArg List.Nodup (List.map_congr_left fun r _ => ?_)).mpr hids
    simp only [Function.comp_apply]
    split_ifs <;> rfl
  have hfound : p.session.view.replica? replica.replicaId = some replica := by
    refine Table.lookup_of_mem hkeys ?_
    rw [h.replicas]
    exact List.mem_map.mpr ⟨replica, hrow, hself⟩
  have hrun : (setReplicaState (.value replica.replicaId) (.value .unavailable)).run p.session.view = _ :=
    setReplicaState_along hfound (by simp [hhealthy]) (by rw [hhealthy]; decide)
  refine wp_bind.mpr (wp_transaction_ok hrun fun s hs => ?_)
  refine wp_mono ?_ (wp_scheduleRepair hrf replica (p.move s))
  intro r q hq
  cases r with
  | error e => exact hq
  | ok id =>
    have hview : (p.move s).session.view = p.session.view.amendReplica replica.replicaId (Replica.enter .unavailable) := hs
    rw [Post.seq_ok, hview] at hq
    refine ⟨hq.nodes.trans h.nodes, ?_, hq.versions.trans h.versions, hq.objects.trans h.objects⟩
    refine hq.replicas.trans ?_
    rw [Db.amendReplica, h.replicas]
    refine amend_map fun r hr => ?_
    by_cases he : r = replica
    · subst he
      rw [hself, if_pos rfl, if_pos ⟨hmem, (List.nodup_cons.mp hnodup).1⟩]
    · have hid : r.replicaId ≠ replica.replicaId := fun hc => he (Table.eq_of_key hids hr hrow hc)
      have hsame : (r ∈ given ∧ r ∉ replica :: rest) ↔ (r ∈ given ∧ r ∉ rest) := by simp [he]
      simp only [hsame]
      by_cases hg : r ∈ given ∧ r ∉ rest
      · rw [if_pos hg]
        exact if_neg hid
      · rw [if_neg hg]
        exact if_neg hid

/-- The healthy replicas of committed versions on the node become `UNAVAILABLE`, and nothing else changes. -/
structure GaveUp (db : Db) (nodeId : String) (view : Db) : Prop where
  nodes : view.nodes = db.nodes
  replicas : view.replicas = db.replicas.map (fun r =>
    if r.nodeId = nodeId ∧ Committed db r ∧ r.status = .healthy then r.enter .unavailable else r)
  versions : view.versions = db.versions
  objects : view.objects = db.objects

lemma wp_scheduleRepairsForNode {rf : ℕ} (hrf : 1 ≤ rf) (nodeId : String) {p : Watch ρ}
    (hids : (p.session.view.replicas.map Replica.replicaId).Nodup) :
    wp any (Post.seq (fun _ q => GaveUp p.session.view nodeId q.session.view) fun _ _ => False)
      (scheduleRepairsForNode rf nodeId) p := by
  refine wp_bind.mpr (wp_query.mpr (wp_bind.mpr ?_))
  generalize hgiven : byVersionId ((committedOn p.session.view nodeId).filter fun r => r.status = .healthy) = given
  have hmem : ∀ r, r ∈ given ↔ r ∈ p.session.view.replicas ∧ r.nodeId = nodeId ∧ Committed p.session.view r ∧
      r.status = .healthy := by
    intro r
    rw [← hgiven]
    exact mem_abandoned
  have hnodup : given.Nodup := by
    rw [← hgiven, byVersionId, (List.mergeSort_perm _ _).nodup_iff]
    exact ((List.Nodup.of_map _ hids).filter _).filter _
  have hstart : Abandoning p.session.view given given p.look.session.view := by
    refine ⟨rfl, ?_, rfl, rfl⟩
    simp [Point.look, Session.look]
  refine wp_mono ?_ (wp_forEach (J := fun rest q => rest ⊆ given ∧ rest.Nodup ∧
    Abandoning p.session.view given rest q.session.view) (E := fun _ _ => False) (fun replica rest q hq => ?_)
    ⟨List.Subset.refl _, hnodup, hstart⟩)
  · intro r q hq
    cases r with
    | error e => exact hq
    | ok ids =>
      refine wp_pure.mpr ⟨hq.2.2.nodes, ?_, hq.2.2.versions, hq.2.2.objects⟩
      rw [hq.2.2.replicas]
      refine List.map_congr_left fun r hr => ?_
      have hiff : (r ∈ given ∧ r ∉ ([] : List Replica)) ↔
          (r.nodeId = nodeId ∧ Committed p.session.view r ∧ r.status = .healthy) := by
        rw [hmem]
        simp [hr]
      simp only [hiff]
  · obtain ⟨hsub, hdistinct, habandon⟩ := hq
    refine wp_mono ?_ (habandon.step hrf hids (fun r hr => ?_) hsub hdistinct)
    · intro r q' hq'
      cases r with
      | error e => exact hq'
      | ok id => exact ⟨fun r hr => hsub (List.mem_cons_of_mem _ hr), (List.nodup_cons.mp hdistinct).2, hq'⟩
    · obtain ⟨hrow, -, -, hhealthy⟩ := (hmem r).mp hr
      exact ⟨hrow, hhealthy⟩

/-- The state in which a scan leaves the node. -/
def nextState (delays : Delays) (now : Time) (node : StorageNode) : NodeState :=
  match node.lastHeartbeatAt, node.status with
  | some last, .healthy | some last, .recovering =>
    if delays.suspectAfter ≤ now - last then .suspect else node.status
  | some last, .suspect => if delays.unavailableAfter ≤ now - last then .unavailable else node.status
  | _, _ => node.status

def scannedNode (delays : Delays) (now : Time) (node : StorageNode) : StorageNode :=
  node.enter (nextState delays now node)

/-- The scan gives the node up. -/
def Lost (delays : Delays) (now : Time) (node : StorageNode) : Prop :=
  node.status ≠ .unavailable ∧ nextState delays now node = .unavailable

instance (delays : Delays) (now : Time) (node : StorageNode) : Decidable (Lost delays now node) :=
  inferInstanceAs (Decidable (_ ∧ _))

section NextState

variable {delays : Delays} {now : Time} {node : StorageNode}

variable (delays now node) in
lemma nextState_edge : nextState delays now node = node.status ∨
    nextState delays now node ∈ nodeStateTransitions node.status := by
  unfold nextState
  split
  · next hs =>
    split_ifs
    · exact Or.inr (by rw [hs]; decide)
    · exact Or.inl rfl
  · next hs =>
    split_ifs
    · exact Or.inr (by rw [hs]; decide)
    · exact Or.inl rfl
  · next hs =>
    split_ifs
    · exact Or.inr (by rw [hs]; decide)
    · exact Or.inl rfl
  · exact Or.inl rfl

lemma suspect_of_nextState (h : nextState delays now node = .suspect) (hs : node.status ≠ .suspect) :
    ∃ last ∈ node.lastHeartbeatAt, delays.suspectAfter ≤ now - last := by
  unfold nextState at h
  split at h
  · next last hlast _ =>
    split_ifs at h with hlate
    · exact ⟨last, hlast, hlate⟩
    · exact absurd h hs
  · next last hlast _ =>
    split_ifs at h with hlate
    · exact ⟨last, hlast, hlate⟩
    · exact absurd h hs
  · next hstatus => exact absurd hstatus hs
  · exact absurd h hs

lemma Lost.silent (h : Lost delays now node) :
    node.status = .suspect ∧ ∃ last ∈ node.lastHeartbeatAt, delays.unavailableAfter ≤ now - last := by
  obtain ⟨hs, h⟩ := h
  unfold nextState at h
  split at h
  · split_ifs at h
    exact absurd h hs
  · split_ifs at h
    exact absurd h hs
  · next last hlast hstatus =>
    split_ifs at h with hlate
    · exact ⟨hstatus, last, hlast, hlate⟩
    · exact absurd h hs
  · exact absurd h hs

end NextState

/-- A node was evaluated: it has its next state, and if it was given up its replicas were too. -/
structure Evaluating (delays : Delays) (now : Time) (db : Db) (node : StorageNode) (view : Db) : Prop where
  nodes : view.nodes = Table.amend StorageNode.nodeId node.nodeId (StorageNode.enter (nextState delays now node)) db.nodes
  replicas : view.replicas = db.replicas.map (fun r =>
    if Lost delays now node ∧ r.nodeId = node.nodeId ∧ Committed db r ∧ r.status = .healthy then
      r.enter .unavailable else r)
  versions : view.versions = db.versions
  objects : view.objects = db.objects

lemma evaluating_of_same {delays : Delays} {now : Time} {db : Db} {node : StorageNode} (h : Registered db)
    (hn : node ∈ db.nodes) (hs : nextState delays now node = node.status) : Evaluating delays now db node db := by
  have hlost : ¬Lost delays now node := fun hl => hl.1 (hs ▸ hl.2)
  refine ⟨(Table.amend_fixed h.keys.distinct hn ?_).symm, by simp [hlost], rfl, rfl⟩
  rw [hs]
  rfl

lemma evaluating_of_edge {delays : Delays} {now : Time} {db : Db} {node : StorageNode} {state : NodeState}
    (hnext : nextState delays now node = state) (hlost : ¬Lost delays now node) :
    Evaluating delays now db node (db.amendNode node.nodeId (StorageNode.enter state)) :=
  ⟨by rw [hnext]; rfl, by simp [hlost, Db.amendNode], rfl, rfl⟩

lemma evaluating_of_gaveUp {delays : Delays} {now : Time} {db view : Db} {node : StorageNode}
    (hlost : Lost delays now node)
    (h : GaveUp (db.amendNode node.nodeId (StorageNode.enter .unavailable)) node.nodeId view) :
    Evaluating delays now db node view := by
  refine ⟨?_, ?_, h.versions, h.objects⟩
  · rw [hlost.2]
    exact h.nodes
  · rw [h.replicas]
    refine List.map_congr_left fun r _ => ?_
    have hiff : (r.nodeId = node.nodeId ∧ Committed (db.amendNode node.nodeId (StorageNode.enter .unavailable)) r ∧
        r.status = .healthy) ↔
        (Lost delays now node ∧ r.nodeId = node.nodeId ∧ Committed db r ∧ r.status = .healthy) := by
      rw [and_iff_right hlost]
      rfl
    simp only [hiff]

lemma wp_evaluate_exact {delays : Delays} {now : Time} {rf : ℕ} (hrf : 1 ≤ rf) {node : StorageNode} {p : Watch ρ}
    (h : Registered p.session.view) (hn : node ∈ p.session.view.nodes) :
    wp any (Post.seq (fun _ q => Evaluating delays now p.session.view node q.session.view) fun _ _ => False)
      (evaluate delays rf now node) p := by
  have hsame : nextState delays now node = node.status →
      wp any (Post.seq (fun _ q => Evaluating delays now p.session.view node q.session.view) fun _ _ => False)
        (pure none : Job (Option NodeTransition)) p := fun hs => wp_pure.mpr (evaluating_of_same h hn hs)
  have hsuspect : nextState delays now node = .suspect → node.status ≠ .suspect →
      .suspect ∈ nodeStateTransitions node.status →
      wp any (Post.seq (fun _ q => Evaluating delays now p.session.view node q.session.view) fun _ _ => False)
        (some <$> becomeSuspect node) p := by
    intro hnext hne hedge
    have hlost : ¬Lost delays now node := fun hl => by simp [Lost, hnext] at hl
    refine wp_bind.mpr (wp_bind.mpr (wp_transaction_ok (transitionNodeState_edge h hn (Ne.symm hne) hedge) fun s hs => ?_))
    have hedge : Evaluating delays now p.session.view node (p.move s).session.view := by
      rw [show (p.move s).session.view = _ from hs]
      exact evaluating_of_edge hnext hlost
    exact wp_pure.mpr (wp_pure.mpr hedge)
  unfold evaluate
  split
  · next last hlast hs =>
    refine wp_ite.mpr ⟨fun hlate => ?_, fun hearly => ?_⟩
    · exact hsuspect (by simp [nextState, hlast, hs, hlate]) (by simp [hs]) (by rw [hs]; decide)
    · exact hsame (by simp [nextState, hlast, hs, hearly])
  · next last hlast hs =>
    refine wp_ite.mpr ⟨fun hlate => ?_, fun hearly => ?_⟩
    · exact hsuspect (by simp [nextState, hlast, hs, hlate]) (by simp [hs]) (by rw [hs]; decide)
    · exact hsame (by simp [nextState, hlast, hs, hearly])
  · next last hlast hs =>
    refine wp_ite.mpr ⟨fun hlate => ?_, fun hearly => ?_⟩
    · have hnext : nextState delays now node = .unavailable := by simp [nextState, hlast, hs, hlate]
      have hlost : Lost delays now node := ⟨by simp [hs], hnext⟩
      refine wp_bind.mpr (wp_bind.mpr (wp_transaction_ok
        (transitionNodeState_edge h hn (by simp [hs]) (by rw [hs]; decide)) fun s hview => ?_))
      have hview : (p.move s).session.view = p.session.view.amendNode node.nodeId (StorageNode.enter .unavailable) := hview
      have hids : ((p.move s).session.view.replicas.map Replica.replicaId).Nodup := by
        rw [hview]
        exact h.replicaIds
      refine wp_bind.mpr (wp_mono ?_ (wp_scheduleRepairsForNode hrf node.nodeId hids))
      intro r q hq
      cases r with
      | error e => exact hq
      | ok ids =>
        rw [Post.seq_ok, hview] at hq
        exact wp_pure.mpr (wp_pure.mpr (evaluating_of_gaveUp hlost hq))
    · exact hsame (by simp [nextState, hlast, hs, hearly])
  · refine hsame ?_
    unfold nextState
    split <;> simp_all

/-- A replica that a scan of these nodes gives up. -/
def GivenUp (delays : Delays) (now : Time) (db : Db) (nodes : List StorageNode) (r : Replica) : Prop :=
  (∃ n ∈ nodes, n.nodeId = r.nodeId ∧ Lost delays now n) ∧ Committed db r ∧ r.status = .healthy

instance (delays : Delays) (now : Time) (db : Db) (nodes : List StorageNode) (r : Replica) :
    Decidable (GivenUp delays now db nodes r) := inferInstanceAs (Decidable (_ ∧ _ ∧ _))

/-- The nodes in `rest` are still to be evaluated, the others have been. -/
structure Sweeping (delays : Delays) (now : Time) (db : Db) (rest : List StorageNode) (view : Db) : Prop where
  listed : rest ⊆ db.nodes
  distinct : rest.Nodup
  nodes : view.nodes = db.nodes.map (fun n => if n ∈ rest then n else scannedNode delays now n)
  replicas : view.replicas = db.replicas.map (fun r =>
    if GivenUp delays now db (db.nodes.filter (· ∉ rest)) r then r.enter .unavailable else r)
  versions : view.versions = db.versions
  objects : view.objects = db.objects

section Sweeping

variable {delays : Delays} {now : Time} {db view view' : Db} {node : StorageNode} {rest : List StorageNode}

lemma Sweeping.registered (hdb : Registered db) (h : Sweeping delays now db rest view) : Registered view := by
  refine hdb.of_same ?_ ?_
  · rw [h.nodes, List.map_map]
    refine List.map_congr_left fun n _ => ?_
    simp only [Function.comp_apply]
    split_ifs <;> rfl
  · rw [h.replicas, List.map_map]
    refine List.map_congr_left fun r _ => ?_
    simp only [Function.comp_apply]
    split_ifs <;> rfl

lemma Sweeping.evaluated (hdb : Registered db) (h : Sweeping delays now db (node :: rest) view)
    (he : Evaluating delays now view node view') : Sweeping delays now db rest view' := by
  have hn : node ∈ db.nodes := h.listed List.mem_cons_self
  have hfresh : node ∉ rest := (List.nodup_cons.mp h.distinct).1
  have hcommitted : ∀ r, Committed view r ↔ Committed db r := by
    intro r
    unfold Committed Db.version?
    rw [h.versions]
  refine ⟨fun n hm => h.listed (List.mem_cons_of_mem _ hm), (List.nodup_cons.mp h.distinct).2, ?_, ?_,
    he.versions.trans h.versions, he.objects.trans h.objects⟩
  · rw [he.nodes, h.nodes]
    refine amend_map fun n hm => ?_
    by_cases hnode : n = node
    · subst hnode
      rw [if_pos List.mem_cons_self, if_pos rfl, if_neg hfresh]
      rfl
    · have hid : n.nodeId ≠ node.nodeId := fun hc => hnode (Table.eq_of_key hdb.keys.distinct hm hn hc)
      have hsame : n ∈ node :: rest ↔ n ∈ rest := by simp [hnode]
      simp only [hsame]
      by_cases hr : n ∈ rest
      · rw [if_pos hr]
        exact if_neg hid
      · rw [if_neg hr]
        exact if_neg hid
  · rw [he.replicas, h.replicas, List.map_map]
    refine List.map_congr_left fun r hr => ?_
    have hsplit : GivenUp delays now db (db.nodes.filter (· ∉ rest)) r ↔
        GivenUp delays now db (db.nodes.filter (· ∉ node :: rest)) r ∨
          Lost delays now node ∧ r.nodeId = node.nodeId ∧ Committed db r ∧ r.status = .healthy := by
      constructor
      · rintro ⟨⟨n, hm, hid, hlost⟩, hc⟩
        obtain ⟨hm, hnew⟩ := List.mem_filter.mp hm
        by_cases hnode : n = node
        · subst hnode
          exact Or.inr ⟨hlost, hid.symm, hc⟩
        · refine Or.inl ⟨⟨n, List.mem_filter.mpr ⟨hm, ?_⟩, hid, hlost⟩, hc⟩
          simpa [hnode] using hnew
      · rintro (⟨⟨n, hm, hid, hlost⟩, hc⟩ | ⟨hlost, hid, hc⟩)
        · obtain ⟨hm, hnew⟩ := List.mem_filter.mp hm
          refine ⟨⟨n, List.mem_filter.mpr ⟨hm, ?_⟩, hid, hlost⟩, hc⟩
          simp only [decide_eq_true_eq, List.mem_cons, not_or] at hnew
          simpa using hnew.2
        · exact ⟨⟨node, List.mem_filter.mpr ⟨hn, by simpa using hfresh⟩, hid.symm, hlost⟩, hc⟩
    simp only [Function.comp_apply, hsplit]
    by_cases hold : GivenUp delays now db (db.nodes.filter (· ∉ node :: rest)) r
    · rw [if_pos hold, if_pos (Or.inl hold), if_neg]
      rintro ⟨-, -, -, hs⟩
      cases hs
    · rw [if_neg hold]
      simp only [hold, false_or, hcommitted]

end Sweeping

/-- What a whole scan does. -/
structure Scanned (delays : Delays) (now : Time) (db view : Db) : Prop where
  nodes : view.nodes = db.nodes.map (scannedNode delays now)
  replicas : view.replicas = db.replicas.map (fun r =>
    if GivenUp delays now db db.nodes r then r.enter .unavailable else r)
  versions : view.versions = db.versions
  objects : view.objects = db.objects

lemma Scanned.registered {delays : Delays} {now : Time} {db view : Db} (hs : Scanned delays now db view)
    (h : Registered db) : Registered view := by
  refine h.of_same ?_ ?_
  · rw [hs.nodes, List.map_map]
    rfl
  · rw [hs.replicas, List.map_map]
    refine List.map_congr_left fun r _ => ?_
    simp only [Function.comp_apply]
    split_ifs <;> rfl

lemma Scanned.node? {delays : Delays} {now : Time} {db view : Db} (hs : Scanned delays now db view) (n : String) :
    view.node? n = (db.node? n).map (scannedNode delays now) := by
  rw [Db.node?, hs.nodes, Table.lookup_map (f := scannedNode delays now) fun _ => rfl]
  rfl

lemma wp_scan_exact {delays : Delays} {now : Time} {rf : ℕ} (hrf : 1 ≤ rf) {p : Watch ρ}
    (h : Registered p.session.view) :
    wp any (Post.seq (fun _ q => Scanned delays now p.session.view q.session.view) fun _ _ => False)
      (scan delays rf now) p := by
  have hperm := List.mergeSort_perm p.session.view.nodes (fun n m => decide (n.nodeId ≤ m.nodeId))
  have hmem : ∀ n, n ∈ listNodes p.session.view ↔ n ∈ p.session.view.nodes := fun n => hperm.mem_iff
  have hstart : Sweeping delays now p.session.view (listNodes p.session.view) p.look.session.view := by
    refine ⟨fun n hn => (hmem n).mp hn, hperm.nodup_iff.mpr (List.Nodup.of_map _ h.keys.distinct), ?_, ?_, rfl, rfl⟩
    · refine (List.map_id _).symm.trans (List.map_congr_left fun n hn => ?_)
      rw [if_pos ((hmem n).mpr hn)]
      rfl
    · refine (List.map_id _).symm.trans (List.map_congr_left fun r _ => ?_)
      rw [if_neg]
      · rfl
      rintro ⟨⟨n, hn, -⟩, -⟩
      obtain ⟨hn, hnew⟩ := List.mem_filter.mp hn
      simp [(hmem n).mpr hn] at hnew
  refine wp_bind.mpr (wp_query.mpr (wp_bind.mpr ?_))
  refine wp_mono ?_ (wp_forEach (J := fun rest q => Sweeping delays now p.session.view rest q.session.view)
    (E := fun _ _ => False) (fun node rest q hq => ?_) hstart)
  · intro r q hq
    cases r with
    | error e => exact hq
    | ok transitions =>
      refine wp_pure.mpr ⟨?_, ?_, hq.versions, hq.objects⟩
      · simpa using hq.nodes
      · simpa using hq.replicas
  · have hreg := hq.registered h
    have hnode : node ∈ q.session.view.nodes := by
      rw [hq.nodes]
      exact List.mem_map.mpr ⟨node, hq.listed List.mem_cons_self, if_pos List.mem_cons_self⟩
    refine wp_mono ?_ (wp_evaluate_exact hrf hreg hnode)
    intro r q' hq'
    cases r with
    | error e => exact hq'
    | ok t => exact hq.evaluated h hq'

end Vault.Health
