import Vault.Rebalance.Migration
import Vault.Repair.Choices

/-! The nodes that `PlacementManager.select_nodes`, `RepairManager._target_for_version` and
`RebalanceManager._eligible_target` choose. Three queries, one order: free space descending, then node id. -/

namespace Vault.Placement

open Vault.Common Vault.Metadata Vault.Storage Vault.Lib Vault.Lib.Script Vault.Lib.Sorting

/-- `RepairManager._target_for_version` without a preferred replica. -/
def repairTarget (version : Version) : Job StorageNode := do
  let db ← query
  demand (Repair.targetForVersion db version none) (.vault ⟨.insufficientReplicas,
    s!"No healthy target node can hold version {version.versionId}.", 503⟩)

/-- How a program ends in a session. -/
def answer {α : Type} (x : Job α) (p : Point Db World Note) : Except Failure α := (exec serve x p).1

def Insufficient {α : Type} (r : Except Failure α) : Prop :=
  ∃ message, r = .error (.vault ⟨.insufficientReplicas, message, 503⟩)

/-- `a` comes before `b`: it has more room, or as much and the smaller id. -/
def Before (a b : StorageNode) : Prop := room b < room a ∨ room a = room b ∧ a.nodeId < b.nodeId

instance (a b : StorageNode) : Decidable (Before a b) := inferInstanceAs (Decidable (_ ∨ _))

/-- What the table of nodes guarantees: its primary key, and that no node uses more than it has. -/
structure NodeTable (nodes : List StorageNode) : Prop where
  distinct : (nodes.map StorageNode.nodeId).Nodup
  within : ∀ n ∈ nodes, n.usedBytes ≤ n.capacityBytes

def eligibles (db : Db) (v : UUID) (size : ℕ) : List StorageNode := db.nodes.filter (fun n => Eligible db v size n)

/-- The only candidate, and before every other. -/
def First (db : Db) (v : UUID) (size : ℕ) (n : StorageNode) : Prop :=
  n ∈ eligibles db v size ∧ ∀ m ∈ eligibles db v size, m ≠ n → Before n m

variable {db db' : Db} {v : UUID} {size k : ℕ} {a b : StorageNode}

section Order

lemma roomierFirst_iff : roomierFirst a b = true ↔ LargerFirst room StorageNode.nodeId a b := by
  simp [roomierFirst, LargerFirst]

lemma roomierFirst_trans (a b c : StorageNode) (hab : roomierFirst a b = true) (hbc : roomierFirst b c = true) :
    roomierFirst a c = true :=
  roomierFirst_iff.mpr (LargerFirst.trans (roomierFirst_iff.mp hab) (roomierFirst_iff.mp hbc))

lemma roomierFirst_total (a b : StorageNode) : (roomierFirst a b || roomierFirst b a) = true := by
  rw [Bool.or_eq_true, roomierFirst_iff, roomierFirst_iff]
  exact largerFirst_total room StorageNode.nodeId a b

lemma before_of_roomierFirst (h : roomierFirst a b = true) (hne : a.nodeId ≠ b.nodeId) : Before a b :=
  (roomierFirst_iff.mp h).strict hne

lemma Before.roomierFirst (h : Before a b) : roomierFirst a b = true :=
  roomierFirst_iff.mpr (h.imp_right fun hid => ⟨hid.1, hid.2.le⟩)

end Order

section Eligible

lemma mem_eligibles : a ∈ eligibles db v size ↔ a ∈ db.nodes ∧ Eligible db v size a := by
  rw [eligibles, List.mem_filter, decide_eq_true_eq]

lemma NodeTable.eq_of_id {nodes : List StorageNode} (h : NodeTable nodes) (ha : a ∈ nodes) (hb : b ∈ nodes)
    (hid : a.nodeId = b.nodeId) : a = b :=
  Table.eq_of_key h.distinct ha hb hid

lemma NodeTable.antisymm (h : NodeTable db.nodes) : ∀ a ∈ eligibles db v size, ∀ b ∈ eligibles db v size,
    roomierFirst a b = true → roomierFirst b a = true → a = b := by
  intro a ha b hb hab hba
  exact h.eq_of_id (mem_eligibles.mp ha).1 (mem_eligibles.mp hb).1
    (LargerFirst.antisymm (roomierFirst_iff.mp hab) (roomierFirst_iff.mp hba))

lemma candidates_eq : candidates db v size k = ((eligibles db v size).mergeSort roomierFirst).take k := rfl

lemma length_candidates : (candidates db v size k).length = min k (eligibles db v size).length := by
  rw [candidates_eq, List.length_take, List.length_mergeSort]

lemma pairwise_candidates (h : NodeTable db.nodes) : (candidates db v size k).Pairwise Before := by
  have hnodup : ((candidates db v size k).map StorageNode.nodeId).Nodup := nodup_candidates h.distinct
  have hids := List.pairwise_map.mp hnodup
  have hsorted : (candidates db v size k).Pairwise (fun a b => roomierFirst a b = true) :=
    (List.pairwise_mergeSort roomierFirst_trans roomierFirst_total _).sublist (List.take_sublist _ _)
  exact hsorted.imp₂ (fun _ _ hle hne => before_of_roomierFirst hle hne) hids

lemma before_of_not_mem_candidates (h : NodeTable db.nodes) (ha : a ∈ candidates db v size k)
    (hb : b ∈ db.nodes) (hfit : Eligible db v size b) (hout : b ∉ candidates db v size k) : Before a b := by
  have hle : roomierFirst a b = true :=
    le_of_not_mem_take roomierFirst_trans roomierFirst_total ha (mem_eligibles.mpr ⟨hb, hfit⟩) hout
  apply before_of_roomierFirst hle
  intro hid
  have heq : a = b := h.eq_of_id (mem_candidates ha).1 hb hid
  exact hout (heq ▸ ha)

lemma eligible_of_perm (hrows : db'.replicas.Perm db.replicas) : Eligible db' v size a ↔ Eligible db v size a := by
  simp only [Eligible, hrows.mem_iff]

lemma eligibles_perm (hnodes : db'.nodes.Perm db.nodes) (hrows : db'.replicas.Perm db.replicas) :
    (eligibles db' v size).Perm (eligibles db v size) := by
  have hsame : eligibles db' v size = db'.nodes.filter (fun n => Eligible db v size n) := by
    apply List.filter_congr
    intro n _
    rw [decide_eq_decide]
    exact eligible_of_perm hrows
  rw [hsame]
  exact hnodes.filter _

/-- The order of the rows in the tables does not matter. -/
lemma candidates_of_perm (h : NodeTable db.nodes) (hnodes : db'.nodes.Perm db.nodes)
    (hrows : db'.replicas.Perm db.replicas) : candidates db' v size k = candidates db v size k := by
  rw [candidates_eq, candidates_eq,
    mergeSort_eq_of_perm roomierFirst_trans roomierFirst_total h.antisymm (eligibles_perm hnodes hrows)]

lemma candidates_succ : candidates db v size k <+: candidates db v size (k + 1) := by
  rw [candidates_eq, candidates_eq]
  exact List.take_prefix_take_left (Nat.le_succ k)

lemma head?_candidates (h : NodeTable db.nodes) : (candidates db v size 1).head? = some a ↔ First db v size a := by
  have hhead : (candidates db v size 1).head? = ((eligibles db v size).mergeSort roomierFirst).head? := by
    rw [candidates_eq, List.head?_take]
    simp
  rw [hhead, head?_mergeSort roomierFirst_trans roomierFirst_total h.antisymm]
  constructor
  · rintro ⟨ha, hle⟩
    refine ⟨ha, fun b hb hne => before_of_roomierFirst (hle b hb) fun hid => hne ?_⟩
    exact (h.eq_of_id (mem_eligibles.mp ha).1 (mem_eligibles.mp hb).1 hid).symm
  · rintro ⟨ha, hbefore⟩
    refine ⟨ha, fun b hb => ?_⟩
    by_cases hne : b = a
    · rw [hne]
      simpa using roomierFirst_total a a
    · exact (hbefore b hb hne).roomierFirst

end Eligible

section Choosers

variable {version : Version}

lemma room_eq_freeBytes (h : a.usedBytes ≤ a.capacityBytes) : room a = a.freeBytes := by
  simp only [room, StorageNode.freeBytes]
  omega

lemma repair_candidates_eq (h : NodeTable db.nodes) :
    Repair.candidates db version =
      (eligibles db version.versionId version.sizeBytes).mergeSort Repair.roomierFirst := by
  have hsame : db.nodes.filter (fun n => Repair.Fits version n ∧
      ∀ r ∈ db.replicas, r.versionId = version.versionId → r.nodeId ≠ n.nodeId) =
      eligibles db version.versionId version.sizeBytes := by
    apply List.filter_congr
    intro n hn
    have hroom := room_eq_freeBytes (h.within n hn)
    rw [decide_eq_decide, Repair.Fits, Eligible, hroom, and_assoc]
    norm_cast
  rw [Repair.candidates, hsame]

/-- Repair sorts by `free_bytes`, the others by the difference of the two columns. -/
lemma roomierFirst_eq_repair (ha : a.usedBytes ≤ a.capacityBytes) (hb : b.usedBytes ≤ b.capacityBytes) :
    Repair.roomierFirst a b = roomierFirst a b := by
  rw [Bool.eq_iff_iff, roomierFirst_iff, Repair.roomierFirst_iff, LargerFirst, LargerFirst, room_eq_freeBytes ha,
    room_eq_freeBytes hb]
  norm_cast

lemma targetForVersion_eq (h : NodeTable db.nodes) :
    Repair.targetForVersion db version none = (candidates db version.versionId version.sizeBytes 1).head? := by
  have hmem : ∀ n ∈ eligibles db version.versionId version.sizeBytes, n.usedBytes ≤ n.capacityBytes :=
    fun n hn => h.within n (mem_eligibles.mp hn).1
  have hanti : ∀ a ∈ eligibles db version.versionId version.sizeBytes,
      ∀ b ∈ eligibles db version.versionId version.sizeBytes,
      Repair.roomierFirst a b = true → Repair.roomierFirst b a = true → a = b := by
    intro a ha b hb hab hba
    rw [roomierFirst_eq_repair (hmem a ha) (hmem b hb)] at hab
    rw [roomierFirst_eq_repair (hmem b hb) (hmem a ha)] at hba
    exact h.antisymm a ha b hb hab hba
  rw [Repair.targetForVersion_of_none rfl, repair_candidates_eq h, candidates_eq, List.head?_take]
  ext n
  rw [head?_mergeSort Repair.roomierFirst_trans Repair.roomierFirst_total hanti, if_neg one_ne_zero,
    head?_mergeSort roomierFirst_trans roomierFirst_total h.antisymm]
  refine and_congr_right fun hn => forall₂_congr fun m hm => ?_
  rw [roomierFirst_eq_repair (hmem n hn) (hmem m hm)]

lemma eligibleNodes_eq : Rebalance.eligibleNodes db version [] = candidates db version.versionId version.sizeBytes 1 := by
  rw [Rebalance.eligibleNodes, candidates]
  congr 2
  apply List.filter_congr
  intro n _
  rw [decide_eq_decide, Eligible]
  simp only [ne_eq, not_true_eq_false, false_implies, and_true, not_exists, not_and]

end Choosers

section Answers

variable {p q : Point Db World Note} {version : Version}

def shortage (k found : ℕ) : Failure :=
  .vault ⟨.insufficientReplicas,
    s!"Requested {k} replicas, but only {found} eligible storage nodes are available.", 503⟩

lemma answer_selectNodes (v : UUID) (size k : ℕ) (p : Point Db World Note) :
    answer (selectNodes v size k) p =
      if k ≤ (candidates p.session.view v size k).length then .ok (candidates p.session.view v size k)
      else .error (shortage k (candidates p.session.view v size k).length) := by
  have hlook : answer (selectNodes v size k) p =
      (exec serve ((require (k ≤ (candidates p.session.view v size k).length)
        (shortage k (candidates p.session.view v size k).length) : Job Unit) >>= fun _ =>
          pure (candidates p.session.view v size k)) p.look).1 := rfl
  rw [hlook, require]
  by_cases h : k ≤ (candidates p.session.view v size k).length
  · rw [if_pos h, if_pos h]
    rfl
  · rw [if_neg h, if_neg h]
    rfl

lemma selectNodes_ok {nodes : List StorageNode} :
    answer (selectNodes v size k) p = .ok nodes ↔
      k ≤ (eligibles p.session.view v size).length ∧ nodes = candidates p.session.view v size k := by
  have hlen : k ≤ (candidates p.session.view v size k).length ↔ k ≤ (eligibles p.session.view v size).length := by
    rw [length_candidates]
    omega
  rw [answer_selectNodes, ← hlen]
  split_ifs with h
  · simp only [Except.ok.injEq, h, true_and]
    exact eq_comm
  · simp only [h, false_and]

lemma selectNodes_insufficient :
    Insufficient (answer (selectNodes v size k) p) ↔ (eligibles p.session.view v size).length < k := by
  have hlen : k ≤ (candidates p.session.view v size k).length ↔ k ≤ (eligibles p.session.view v size).length := by
    rw [length_candidates]
    omega
  rw [← not_le, ← hlen, answer_selectNodes]
  split_ifs with h
  · simp [Insufficient, h]
  · simp only [h, not_false_eq_true, iff_true]
    exact ⟨_, rfl⟩

def noTarget (version : Version) : Failure :=
  .vault ⟨.insufficientReplicas, s!"No healthy target node can hold version {version.versionId}.", 503⟩

lemma answer_repairTarget (h : NodeTable p.session.view.nodes) : answer (repairTarget version) p =
    (candidates p.session.view version.versionId version.sizeBytes 1).head?.elim (.error (noTarget version)) .ok := by
  rw [← targetForVersion_eq h]
  have hlook : answer (repairTarget version) p =
      (exec serve (demand (Repair.targetForVersion p.session.view version none) (noTarget version) : Job StorageNode)
        p.look).1 := rfl
  rw [hlook]
  cases Repair.targetForVersion p.session.view version none with
  | none => rfl
  | some n => rfl

lemma answer_eligibleTarget : answer (Rebalance.eligibleTarget version []) p =
    (candidates p.session.view version.versionId version.sizeBytes 1).head?.elim (.error (noTarget version)) .ok := by
  rw [← eligibleNodes_eq]
  have hlook : answer (Rebalance.eligibleTarget version []) p =
      (exec serve (demand (Rebalance.eligibleNodes p.session.view version []).head? (noTarget version) : Job StorageNode)
        p.look).1 := rfl
  rw [hlook]
  cases (Rebalance.eligibleNodes p.session.view version []).head? with
  | none => rfl
  | some n => rfl

lemma insufficient_elim {o : Option StorageNode} :
    Insufficient (o.elim (.error (noTarget version)) .ok) ↔ o = none := by
  cases o with
  | none => exact iff_of_true ⟨_, rfl⟩ rfl
  | some n => exact iff_of_false (by simp [Insufficient]) (by simp)

lemma head?_candidates_eq_none : (candidates db v size 1).head? = none ↔ (eligibles db v size).length < 1 := by
  rw [List.head?_eq_none_iff, ← List.length_eq_zero_iff, length_candidates]
  omega

/-- What `select_nodes` promises of the nodes it returns. -/
structure Selected (db : Db) (v : UUID) (size k : ℕ) (nodes : List StorageNode) : Prop where
  count : nodes.length = k
  distinct : (nodes.map StorageNode.nodeId).Nodup
  fits : ∀ n ∈ nodes, n ∈ db.nodes ∧ Eligible db v size n
  sorted : nodes.Pairwise Before
  best : ∀ n ∈ db.nodes, Eligible db v size n → n ∉ nodes → ∀ m ∈ nodes, Before m n

lemma selected_candidates (h : NodeTable db.nodes) (hk : k ≤ (eligibles db v size).length) :
    Selected db v size k (candidates db v size k) where
  count := by
    rw [length_candidates]
    omega
  distinct := nodup_candidates h.distinct
  fits := fun _ hn => mem_candidates hn
  sorted := pairwise_candidates h
  best := fun _ hn hfit hout _ hm => before_of_not_mem_candidates h hm hn hfit hout

/-- The three choosers follow one order. -/
theorem target_choosers_follow_one_order (p : Point Db World Note) (h : NodeTable p.session.view.nodes) (v : UUID)
    (size k : ℕ) (_hk : 1 ≤ k) :
    ((∃ nodes, answer (selectNodes v size k) p = .ok nodes ∧ Selected p.session.view v size k nodes) ∨
      Insufficient (answer (selectNodes v size k) p)) ∧
    (Insufficient (answer (selectNodes v size k) p) ↔ (eligibles p.session.view v size).length < k) ∧
    (∀ q : Point Db World Note, q.session.view.nodes.Perm p.session.view.nodes →
      q.session.view.replicas.Perm p.session.view.replicas →
      answer (selectNodes v size k) q = answer (selectNodes v size k) p) ∧
    (∀ nodes more, answer (selectNodes v size k) p = .ok nodes → answer (selectNodes v size (k + 1)) p = .ok more →
      nodes <+: more) ∧
    (∀ version : Version, version.versionId = v →
      answer (Rebalance.eligibleTarget version []) p = answer (repairTarget version) p ∧
      (∀ n, answer (repairTarget version) p = .ok n ↔ First p.session.view v version.sizeBytes n) ∧
      (Insufficient (answer (repairTarget version) p) ↔
        Insufficient (answer (selectNodes v version.sizeBytes 1) p))) := by
  refine ⟨?_, selectNodes_insufficient, fun q hnodes hrows => ?_, fun nodes more hnodes hmore => ?_, ?_⟩
  · rcases le_or_gt k (eligibles p.session.view v size).length with hk | hk
    · exact Or.inl ⟨_, selectNodes_ok.mpr ⟨hk, rfl⟩, selected_candidates h hk⟩
    · exact Or.inr (selectNodes_insufficient.mpr hk)
  · rw [answer_selectNodes, answer_selectNodes, candidates_of_perm h hnodes hrows]
  · rw [(selectNodes_ok.mp hnodes).2, (selectNodes_ok.mp hmore).2]
    exact candidates_succ
  · rintro version rfl
    have hrepair : answer (repairTarget version) p =
        (candidates p.session.view version.versionId version.sizeBytes 1).head?.elim (.error (noTarget version)) .ok :=
      answer_repairTarget h
    refine ⟨answer_eligibleTarget.trans hrepair.symm, fun n => ?_, ?_⟩
    · rw [hrepair, ← head?_candidates h]
      cases (candidates p.session.view version.versionId version.sizeBytes 1).head? with
      | none => simp
      | some m => simp
    · rw [hrepair, insufficient_elim, head?_candidates_eq_none, selectNodes_insufficient]

end Answers

def nodeA : StorageNode :=
  { nodeId := "a", address := "http://a", status := .healthy, capacityBytes := 7, usedBytes := 2 }

/-- `a` and `b` have equally much room, `c` has too little and `d` is not healthy. -/
def sampleNodes : List StorageNode :=
  [{ nodeId := "b", address := "http://b", status := .healthy, capacityBytes := 10, usedBytes := 5 }, nodeA,
    { nodeId := "c", address := "http://c", status := .healthy, capacityBytes := 9, usedBytes := 6 },
    { nodeId := "d", address := "http://d", status := .suspect, capacityBytes := 9, usedBytes := 0 }]

def samplePoint : Point Db World Note := Point.start { nodes := sampleNodes } ⟨fun _ _ => none, fun _ => {}⟩

def fiveBytes : Version := ⟨⟨1⟩, ⟨0⟩, 1, 5, zeroChecksum, .committed, none⟩

lemma nodeTable_sampleNodes : NodeTable sampleNodes where
  distinct := by decide
  within := by decide

lemma eligibles_sampleNodes : eligibles { nodes := sampleNodes } ⟨1⟩ 5 = sampleNodes.take 2 := by decide

theorem smaller_name_chosen :
    NodeTable samplePoint.session.view.nodes ∧
      (∃ nodes, answer (selectNodes ⟨1⟩ 5 2) samplePoint = .ok nodes ∧
        Selected samplePoint.session.view ⟨1⟩ 5 2 nodes) ∧
      answer (repairTarget fiveBytes) samplePoint = .ok nodeA ∧
      answer (Rebalance.eligibleTarget fiveBytes []) samplePoint = .ok nodeA := by
  obtain ⟨hselect, hshort, -, -, hothers⟩ :=
    target_choosers_follow_one_order samplePoint nodeTable_sampleNodes ⟨1⟩ 5 2 (by decide)
  obtain ⟨hsame, hfirst, -⟩ := hothers fiveBytes rfl
  have hrepair : answer (repairTarget fiveBytes) samplePoint = .ok nodeA := by
    apply (hfirst nodeA).mpr
    change First { nodes := sampleNodes } ⟨1⟩ 5 nodeA
    simp only [First, eligibles_sampleNodes]
    decide
  refine ⟨nodeTable_sampleNodes, hselect.resolve_right fun hfew => ?_, hrepair, hsame.trans hrepair⟩
  exact absurd (hshort.mp hfew) (by
    change ¬(eligibles { nodes := sampleNodes } ⟨1⟩ 5).length < 2
    rw [eligibles_sampleNodes]
    decide)

end Vault.Placement
