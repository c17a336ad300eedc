import Vault.Health.Silence

/-! Heartbeats commute. Whatever the order and the duplications, the deliveries of a set of heartbeats leave the
row of their node with the figures of the newest one, if that is newer than the stored heartbeat, and as it was
otherwise. -/

namespace Vault.Health

open Vault.Common Vault.Metadata Vault.Storage Vault.Lib Vault.Lib.Script Vault.Lib.Transaction

def Newer (node : StorageNode) (payload : HeartbeatPayload) : Prop :=
  ∀ last ∈ node.lastHeartbeatAt, last < payload.timestamp

instance (node : StorageNode) (payload : HeartbeatPayload) : Decidable (Newer node payload) :=
  inferInstanceAs (Decidable (∀ last ∈ _, _))

/-- The row that one heartbeat leaves. -/
def heard (node : StorageNode) (payload : HeartbeatPayload) : StorageNode :=
  if Newer node payload then beatenNode payload node else node

/-- The row has the figures of the newest of the heartbeats, or none of them is newer than the stored one. -/
def Newest (node : StorageNode) (payloads : List HeartbeatPayload) (row : StorageNode) : Prop :=
  ((∀ x ∈ payloads, ¬Newer node x) ∧ row = node) ∨
    ∃ x ∈ payloads, Newer node x ∧ (∀ y ∈ payloads, y.timestamp ≤ x.timestamp) ∧ row = beatenNode x node

section Rows

variable {node row : StorageNode} {x y : HeartbeatPayload} {xs ys : List HeartbeatPayload}

lemma beatenState_idem (state : NodeState) : beatenState (beatenState state) = beatenState state := by
  cases state <;> rfl

lemma beatenState_ne_removed {state : NodeState} (h : state ≠ .removed) : beatenState state ≠ .removed := by
  cases state <;> simp_all [beatenState]

lemma beatenNode_beatenNode (x y : HeartbeatPayload) (node : StorageNode) :
    beatenNode y (beatenNode x node) = beatenNode y node := by
  simp only [beatenNode, HeartbeatPayload.beat, StorageNode.beat, StorageNode.enter, beatenState_idem]

lemma newer_beatenNode : Newer (beatenNode x node) y ↔ x.timestamp < y.timestamp := by
  simp [Newer, beatenNode, HeartbeatPayload.beat, StorageNode.beat, StorageNode.enter]

lemma not_newer_iff : ¬Newer node x ↔ ∃ last ∈ node.lastHeartbeatAt, x.timestamp ≤ last := by
  simp [Newer]

lemma Newer.of_le (h : Newer node x) (hle : x.timestamp ≤ y.timestamp) : Newer node y :=
  fun last hlast => (h last hlast).trans_le hle

/-- A heartbeat that is not newer than the stored one is older than every heartbeat that is. -/
lemma Newer.lt_of_not (h : Newer node x) (hy : ¬Newer node y) : y.timestamp < x.timestamp := by
  obtain ⟨last, hlast, hle⟩ := not_newer_iff.mp hy
  exact hle.trans_lt (h last hlast)

/-- One more delivery. -/
lemma Newest.heard (h : Newest node xs row) (x : HeartbeatPayload) : Newest node (xs ++ [x]) (heard row x) := by
  unfold Health.heard
  rcases h with ⟨hold, rfl⟩ | ⟨y, hy, hnew, hmax, rfl⟩
  · by_cases hx : Newer row x
    · rw [if_pos hx]
      refine Or.inr ⟨x, by simp, hx, fun z hz => ?_, rfl⟩
      rcases List.mem_append.mp hz with hz | hz
      · exact (hx.lt_of_not (hold z hz)).le
      · rw [List.mem_singleton.mp hz]
    · rw [if_neg hx]
      refine Or.inl ⟨fun z hz => ?_, rfl⟩
      rcases List.mem_append.mp hz with hz | hz
      · exact hold z hz
      · rwa [List.mem_singleton.mp hz]
  · by_cases hx : y.timestamp < x.timestamp
    · rw [if_pos (newer_beatenNode.mpr hx), beatenNode_beatenNode]
      refine Or.inr ⟨x, by simp, hnew.of_le hx.le, fun z hz => ?_, rfl⟩
      rcases List.mem_append.mp hz with hz | hz
      · exact (hmax z hz).trans hx.le
      · rw [List.mem_singleton.mp hz]
    · rw [if_neg (newer_beatenNode.not.mpr hx)]
      refine Or.inr ⟨y, List.mem_append_left _ hy, hnew, fun z hz => ?_, rfl⟩
      rcases List.mem_append.mp hz with hz | hz
      · exact hmax z hz
      · rw [List.mem_singleton.mp hz]
        exact not_lt.mp hx

/-- Deliveries in order. -/
lemma newest_foldl (node : StorageNode) (xs : List HeartbeatPayload) : Newest node xs (xs.foldl heard node) := by
  induction xs using List.reverseRecOn with
  | nil => exact Or.inl ⟨by simp, rfl⟩
  | append_singleton xs x ih =>
    rw [List.foldl_append]
    exact ih.heard x

/-- The heartbeats as a set decide the row. -/
lemma Newest.unique {row' : StorageNode} (h : Newest node xs row) (h' : Newest node ys row')
    (hsame : ∀ x, x ∈ ys ↔ x ∈ xs)
    (hdata : ∀ x ∈ xs, ∀ y ∈ xs, x.timestamp = y.timestamp →
      x.capacityBytes = y.capacityBytes ∧ x.usedBytes = y.usedBytes) : row' = row := by
  rcases h with ⟨hold, rfl⟩ | ⟨x, hx, hnew, hmax, rfl⟩
  · rcases h' with ⟨-, rfl⟩ | ⟨y, hy, hnew', -⟩
    · rfl
    · exact absurd hnew' (hold y ((hsame y).mp hy))
  · rcases h' with ⟨hold', -⟩ | ⟨y, hy, -, hmax', rfl⟩
    · exact absurd hnew (hold' x ((hsame x).mpr hx))
    · have htime : y.timestamp = x.timestamp :=
        le_antisymm (hmax y ((hsame y).mp hy)) (hmax' x ((hsame x).mpr hx))
      obtain ⟨hcapacity, hused⟩ := hdata y ((hsame y).mp hy) x hx htime
      simp only [beatenNode, HeartbeatPayload.beat, hcapacity, hused, htime]

lemma heard_fits (h : node.usedBytes ≤ node.capacityBytes) (x : HeartbeatPayload) :
    (heard node x).usedBytes ≤ (heard node x).capacityBytes := by
  unfold heard
  split_ifs
  · exact x.used_le
  · exact h

lemma foldl_heard_fits (h : node.usedBytes ≤ node.capacityBytes) (xs : List HeartbeatPayload) :
    (xs.foldl heard node).usedBytes ≤ (xs.foldl heard node).capacityBytes := by
  induction xs generalizing node with
  | nil => exact h
  | cons x xs ih => exact ih (heard_fits h x)

lemma le_heard {last : Time} (h : last ∈ node.lastHeartbeatAt) (x : HeartbeatPayload) :
    ∃ t ∈ (heard node x).lastHeartbeatAt, last ≤ t := by
  unfold heard
  split_ifs with hx
  · exact ⟨x.timestamp, rfl, (hx last h).le⟩
  · exact ⟨last, h, le_rfl⟩

lemma le_foldl_heard {last : Time} (h : last ∈ node.lastHeartbeatAt) (xs : List HeartbeatPayload) :
    ∃ t ∈ (xs.foldl heard node).lastHeartbeatAt, last ≤ t := by
  induction xs generalizing node last with
  | nil => exact ⟨last, h, le_rfl⟩
  | cons x xs ih =>
    obtain ⟨t, ht, hle⟩ := le_heard h x
    obtain ⟨t', ht', hle'⟩ := ih ht
    exact ⟨t', ht', hle.trans hle'⟩

lemma heard_status {x : HeartbeatPayload} (h : node.status ≠ .removed) : (heard node x).status ≠ .removed := by
  unfold heard
  split_ifs
  · exact beatenState_ne_removed h
  · exact h

end Rows

variable {ρ : Type}

/-- The row of node `n` after the deliveries of the heartbeats, in their order. -/
def rowAfter (serve : ∀ {β : Type}, Request β → ρ → β × ρ) (policy : Policy) (db : Db) (w : ρ) (n : String)
    (payloads : List HeartbeatPayload) : Option StorageNode :=
  (viewAfter serve policy db w (payloads.map Tick.heartbeat)).node? n

section Deliveries

variable {serve : ∀ {β : Type}, Request β → ρ → β × ρ} {policy : Policy} {n : String}

/-- One delivery to a node that takes heartbeats. -/
lemma Ingested.node? {x : HeartbeatPayload} {db view : Db} {r : Except Failure HeartbeatResult} {node : StorageNode}
    (h : Ingested x db r view) (hx : x.nodeId = n) (hn : db.node? n = some node) (hs : node.status ≠ .removed) :
    view.node? n = some (heard node x) := by
  subst hx
  unfold heard
  rcases h with ⟨⟨node', hn', -, hnew⟩, -, hb⟩ | ⟨hno, -, rfl⟩
  · cases hn.symm.trans hn'
    have hnew : Newer node x := hnew
    rw [hb.node?, hn, Option.map_some, if_pos (Table.lookup_key hn), if_pos hnew]
  · have hold : ¬Newer node x := fun hnew => hno ⟨node, hn, hs, hnew⟩
    rw [hn, if_neg hold]

lemma Ingested.registered {x : HeartbeatPayload} {db view : Db} {r : Except Failure HeartbeatResult}
    (h : Ingested x db r view) (hdb : Registered db) : Registered view := by
  rcases h with ⟨-, -, hb⟩ | ⟨-, -, rfl⟩
  · exact hb.registered hdb
  · exact hdb

lemma performAll_heard {p : Watch ρ} (hp : Registered p.session.view) {node : StorageNode}
    (hn : p.session.view.node? n = some node) (hs : node.status ≠ .removed) (xs : List HeartbeatPayload)
    (hxs : ∀ x ∈ xs, x.nodeId = n) :
    (performAll serve policy ((xs.map Tick.heartbeat).map Tick.step) p).session.view.node? n =
      some (xs.foldl heard node) := by
  induction xs generalizing p node with
  | nil => exact hn
  | cons x xs ih =>
    have hrun := ingest_run serve x (p := resume p) hp
    rw [← perform_ingest serve policy] at hrun
    exact ih (hrun.registered hp) (hrun.node? (hxs x (by simp)) hn hs) (heard_status hs)
      fun y hy => hxs y (List.mem_cons_of_mem _ hy)

lemma rowAfter_eq {db : Db} {w : ρ} (hdb : Registered db) {node : StorageNode} (hn : db.node? n = some node)
    (hs : node.status ≠ .removed) (xs : List HeartbeatPayload) (hxs : ∀ x ∈ xs, x.nodeId = n) :
    rowAfter serve policy db w n xs = some (xs.foldl heard node) :=
  performAll_heard (p := watch db w) hdb hn hs xs hxs

end Deliveries

/-- The deliveries of heartbeats `ys` leave the row that those of `xs` leave when they are the same heartbeats in
any order, each any number of times; on the way the stored timestamp never goes back, and the used bytes stay
within the capacity. -/
theorem heartbeats_commute (serve : ∀ {β : Type}, Request β → ρ → β × ρ) (policy : Policy) (db : Db) (w : ρ)
    (hdb : Registered db) (n : String) (node : StorageNode) (hn : db.node? n = some node)
    (hs : node.status ≠ .removed) (xs ys : List HeartbeatPayload) (hxs : ∀ x ∈ xs, x.nodeId = n)
    (hsame : ∀ x, x ∈ ys ↔ x ∈ xs)
    (hdata : ∀ x ∈ xs, ∀ y ∈ xs, x.timestamp = y.timestamp →
      x.capacityBytes = y.capacityBytes ∧ x.usedBytes = y.usedBytes) :
    rowAfter serve policy db w n ys = rowAfter serve policy db w n xs ∧
    (∃ row, rowAfter serve policy db w n xs = some row ∧ Newest node xs row) ∧
    ∀ earlier later, earlier ++ later <+: xs →
      ∃ row row', rowAfter serve policy db w n earlier = some row ∧
        rowAfter serve policy db w n (earlier ++ later) = some row' ∧
        (∀ t ∈ row.lastHeartbeatAt, ∃ t' ∈ row'.lastHeartbeatAt, t ≤ t') ∧
        (node.usedBytes ≤ node.capacityBytes → row.usedBytes ≤ row.capacityBytes) := by
  have hys : ∀ y ∈ ys, y.nodeId = n := fun y hy => hxs y ((hsame y).mp hy)
  have hrow : rowAfter serve policy db w n xs = some (xs.foldl heard node) := rowAfter_eq hdb hn hs xs hxs
  refine ⟨?_, ⟨_, hrow, newest_foldl node xs⟩, fun earlier later hnamed => ?_⟩
  · rw [hrow, rowAfter_eq hdb hn hs ys hys,
      (newest_foldl node xs).unique (newest_foldl node ys) hsame hdata]
  · have hboth : ∀ x ∈ earlier ++ later, x.nodeId = n := fun x hx => hxs x (hnamed.subset hx)
    refine ⟨earlier.foldl heard node, (earlier ++ later).foldl heard node,
      rowAfter_eq hdb hn hs earlier fun x hx => hboth x (List.mem_append_left _ hx),
      rowAfter_eq hdb hn hs _ hboth, fun t ht => ?_, fun hfits => foldl_heard_fits hfits earlier⟩
    rw [List.foldl_append]
    exact le_foldl_heard ht later

/-- Heartbeats at 10 and 12 to an unavailable node, and the same with the late one first and both repeated. -/
theorem late_heartbeat_first_commutes :
    rowAfter Storage.serve samplePolicy lostNodeDb silentWorld "a"
        [samplePayload 12, samplePayload 10, samplePayload 12, samplePayload 10] =
      rowAfter Storage.serve samplePolicy lostNodeDb silentWorld "a" [samplePayload 10, samplePayload 12] :=
  (heartbeats_commute Storage.serve samplePolicy lostNodeDb silentWorld
    ⟨⟨by decide, by decide⟩, by decide, by decide⟩ "a" lostNode rfl (by decide)
    [samplePayload 10, samplePayload 12]
    [samplePayload 12, samplePayload 10, samplePayload 12, samplePayload 10] (by decide)
    (by intro x; simp only [List.mem_cons, List.not_mem_nil, or_false]; tauto) (by decide)).1

end Vault.Health
