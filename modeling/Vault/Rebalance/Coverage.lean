import Vault.Rebalance.Migration
import Vault.Metadata.WellFormed
import Vault.Lib.Rules

/-! How many copies of a version a stop would leave: the `HEALTHY` rows of the durable database whose
node holds matching bytes. A program that only touches the rows and the bytes of the version on some
nodes leaves the copies on all other nodes as they were. -/

namespace Vault.Rebalance

open Vault.Common Vault.Metadata Vault.Storage Vault.Lib Vault.Lib.Script Vault.Lib.Transaction
open Vault.Repair (healthyReplicas)

def backed (db : Db) (s : Store) (i : UUID) : List Replica :=
  (healthyReplicas db i).filter (fun r => Backed db s r)

lemma mem_backed {db : Db} {s : Store} {i : UUID} {r : Replica} :
    r ∈ backed db s i ↔
      r ∈ db.replicas ∧ r.versionId = i ∧ r.status = .healthy ∧ Backed db s r := by
  simp only [backed, healthyReplicas, List.mem_filter, decide_eq_true_eq, and_assoc]

lemma Db.WellFormed.nodup {db : Db} (h : db.WellFormed) : db.replicas.Nodup :=
  List.Nodup.of_map Replica.replicaId h.replicaIds

lemma nodup_backed {db : Db} (h : db.WellFormed) (s : Store) (i : UUID) : (backed db s i).Nodup :=
  ((Db.WellFormed.nodup h).filter _).filter _

/-- The databases agree on the rows of the version, except on the nodes listed. -/
structure Off (i : UUID) (N : List String) (d₀ d : Db) : Prop where
  rows : ∀ r : Replica, r.versionId = i → r.nodeId ∉ N → (r ∈ d.replicas ↔ r ∈ d₀.replicas)
  versions : d.versions = d₀.versions
  nodes : d.nodes = d₀.nodes
  wellFormed : d.WellFormed

def StoreOff (i : UUID) (N : List String) (s₀ s : Store) : Prop := ∀ n, n ∉ N → s n i = s₀ n i

section Off

variable {i : UUID} {N N' : List String} {d₀ d d' : Db} {s₀ s : Store}

lemma Off.refl (h : d₀.WellFormed) : Off i N d₀ d₀ := ⟨fun _ _ _ => Iff.rfl, rfl, rfl, h⟩

lemma Off.mono (h : Off i N d₀ d) (hN : N ⊆ N') : Off i N' d₀ d :=
  ⟨fun r hr hn => h.rows r hr fun hm => hn (hN hm), h.versions, h.nodes, h.wellFormed⟩

lemma Off.trans (h : Off i N d₀ d) (h' : Off i N d d') : Off i N d₀ d' :=
  ⟨fun r hr hn => (h'.rows r hr hn).trans (h.rows r hr hn), h'.versions.trans h.versions,
    h'.nodes.trans h.nodes, h'.wellFormed⟩

lemma Off.backed (h : Off i N d₀ d) {r : Replica} (hr : r.versionId = i) (hn : r.nodeId ∉ N)
    (hs : StoreOff i N s₀ s) : Backed d s r ↔ Backed d₀ s₀ r := by
  unfold Backed Db.version?
  rw [h.versions, hr, hs r.nodeId hn]

lemma Off.backed_mem_iff (h : Off i N d₀ d) (hs : StoreOff i N s₀ s) {r : Replica} (hn : r.nodeId ∉ N) :
    r ∈ Rebalance.backed d s i ↔ r ∈ Rebalance.backed d₀ s₀ i := by
  rw [mem_backed, mem_backed]
  constructor
  · rintro ⟨hm, hi, hst, hb⟩
    exact ⟨(h.rows r hi hn).mp hm, hi, hst, (h.backed hi hn hs).mp hb⟩
  · rintro ⟨hm, hi, hst, hb⟩
    exact ⟨(h.rows r hi hn).mpr hm, hi, hst, (h.backed hi hn hs).mpr hb⟩

lemma Off.length_le (h : Off i N d₀ d) (hw : d₀.WellFormed) (hs : StoreOff i N s₀ s) :
    ((Rebalance.backed d₀ s₀ i).filter (fun r => r.nodeId ∉ N)).length ≤
      (Rebalance.backed d s i).length := by
  apply List.Subperm.length_le
  apply ((nodup_backed hw s₀ i).filter _).subperm
  intro r hr
  obtain ⟨hr, hn⟩ := List.mem_filter.mp hr
  exact (h.backed_mem_iff hs (by simpa using hn)).mpr hr

lemma Off.amendReplica (hw : d.WellFormed) {r : Replica} (hr : r ∈ d.replicas) (hn : r.nodeId ∈ N)
    {f : Replica → Replica} (hid : ∀ r, (f r).replicaId = r.replicaId)
    (hpl : ∀ r, (f r).place = r.place) : Off i N d (d.amendReplica r.replicaId f) where
  rows r' hi hn' := by
    have hne : r'.nodeId ≠ r.nodeId := fun he => hn' (he ▸ hn)
    rw [mem_amendReplica hw hr]
    constructor
    · rintro (⟨hm, -⟩ | rfl)
      · exact hm
      · exact absurd (congrArg Prod.snd (hpl r)) hne
    · exact fun hm => Or.inl ⟨hm, fun he => hne (congrArg Prod.snd he)⟩
  versions := rfl
  nodes := rfl
  wellFormed := hw.amend _ hid hpl

lemma Off.insertReplica (hw : d.WellFormed) {n : String} (hn : n ∈ N)
    (hfree : d.replicaOn? i n = none) : Off i N d (insertReplica i n d) where
  rows r hi hn' := by
    have hne : r.nodeId ≠ n := fun he => hn' (he ▸ hn)
    simp only [Metadata.insertReplica, List.mem_append, List.mem_singleton]
    constructor
    · rintro (hm | rfl)
      · exact hm
      · exact absurd rfl hne
    · exact Or.inl
  versions := rfl
  nodes := rfl
  wellFormed := hw.insert hfree

lemma Off.deleteReplica (hw : d.WellFormed) {r : Replica} (hr : r ∈ d.replicas) (hn : r.nodeId ∈ N) :
    Off i N d (deleteReplica r.replicaId d) where
  rows r' hi hn' := by
    have hne : r'.nodeId ≠ r.nodeId := fun he => hn' (he ▸ hn)
    simp only [Metadata.deleteReplica, Table.mem_remove, and_iff_left_iff_imp]
    intro hm he
    exact hne (congrArg Replica.nodeId (hw.eq_of_id hm hr he))
  versions := rfl
  nodes := rfl
  wellFormed :=
    { replicaIds := Table.nodup_remove hw.replicaIds _
      freshReplica := fun r' hm => hw.freshReplica r' (Table.mem_remove.mp hm).1
      places := Table.nodup_remove hw.places _
      nodeIds := hw.nodeIds }

lemma Off.frame (hw : d.WellFormed) (hr : d'.replicas = d.replicas) (hv : d'.versions = d.versions)
    (hn : d'.nodes = d.nodes) (hi : d.nextId ≤ d'.nextId) : Off i N d d' :=
  ⟨fun r _ _ => by rw [hr], hv, hn, hw.frame hr hn hi⟩

end Off

abbrev Stop := Point Db World Note

/-- The run has touched the version only on the nodes listed, and every state it left behind had
enough copies. -/
structure Within (enough : ℕ) (i : UUID) (N : List String) (d₀ : Db) (s₀ : Store) (p : Stop) : Prop where
  durable : Off i N d₀ p.session.durable
  view : Off i N d₀ p.session.view
  store : StoreOff i N s₀ p.world.store
  past : ∀ s w, .state s w ∈ p.past → enough ≤ (backed s.durable w.store i).length

def Spared (enough : ℕ) (i : UUID) (N : List String) (d₀ : Db) (s₀ : Store) : Prop :=
  d₀.WellFormed ∧ enough ≤ ((backed d₀ s₀ i).filter (fun r => r.nodeId ∉ N)).length

abbrev answered {β : Type} (q : Request β) (w : World) (b : β) (w' : World) : Prop := serve q w = (b, w')

section Within

variable {enough : ℕ} {i : UUID} {N : List String} {d₀ : Db} {s₀ : Store} {p : Stop}

lemma Within.look (h : Within enough i N d₀ s₀ p) : Within enough i N d₀ s₀ p.look :=
  ⟨h.durable, h.view, h.store, h.past⟩

lemma Within.concat (hN : Spared enough i N d₀ s₀) (h : Within enough i N d₀ s₀ p) {s : Session Db}
    {w : World} (hd : Off i N d₀ s.durable) (hv : Off i N d₀ s.view) (hs : StoreOff i N s₀ w.store) :
    Within enough i N d₀ s₀ ⟨s, w, p.past ++ [.state s w]⟩ where
  durable := hd
  view := hv
  store := hs
  past := by
    intro s' w' hm
    rcases List.mem_append.mp hm with hm | hm
    · exact h.past s' w' hm
    · cases List.mem_singleton.mp hm
      exact hN.2.trans (hd.length_le hN.1 hs)

lemma Within.turn (hN : Spared enough i N d₀ s₀) (h : Within enough i N d₀ s₀ p) {w : World}
    (hs : StoreOff i N p.world.store w.store) : Within enough i N d₀ s₀ (p.turn w) :=
  h.concat hN h.durable h.view fun n hn => (hs n hn).trans (h.store n hn)

lemma Within.save (hN : Spared enough i N d₀ s₀) (h : Within enough i N d₀ s₀ p) {f : Db → Db}
    (hf : ∀ d : Db, d.WellFormed → Off i N d (f d)) :
    Within enough i N d₀ s₀ (p.move (p.session.commit f)) := by
  have hoff := h.view.trans (hf _ h.view.wellFormed)
  exact h.concat hN hoff hoff h.store

lemma Within.begin {α : Type} (hN : Spared enough i N d₀ s₀) (h : Within enough i N d₀ s₀ p)
    (body : Metadata.Tx α)
    (hb : ∀ a t, body.run p.session.view = .ok (a, t) → Off i N p.session.view t) :
    Within enough i N d₀ s₀ (p.move (p.session.begin body).2) := by
  have hview : Off i N d₀ (atomic body p.session.view).2 := by
    rcases atomic_cases body p.session.view with ⟨a, t, hr, ha⟩ | ⟨e, -, ha⟩
    · rw [ha]
      exact h.view.trans (hb a t hr)
    · rw [ha]
      exact h.view
  refine h.concat hN ?_ ?_ h.store
  · unfold Session.begin
    dsimp only
    split_ifs
    · exact h.durable
    · exact hview
  · rw [Session.begin_view]
    exact hview

/-- The invariant, with the view still as it was. -/
def Resting (enough : ℕ) (i : UUID) (N : List String) (d₀ : Db) (s₀ : Store) (d : Db) (p : Stop) : Prop :=
  Within enough i N d₀ s₀ p ∧ p.session.view = d

abbrev KeepsResting (enough : ℕ) (i : UUID) (N : List String) (d₀ : Db) (s₀ : Store) {α : Type}
    (x : Job α) : Prop :=
  ∀ d, Keeps answered (Resting enough i N d₀ s₀ d) x

lemma keeps_query_resting : KeepsResting enough i N d₀ s₀ query :=
  fun _ => keeps_query fun _ h => ⟨h.1.look, h.2⟩

lemma keeps_request_resting {β : Type} (hN : Spared enough i N d₀ s₀) {q : Request β}
    (hq : ∀ w, StoreOff i N w.store (serve q w).2.store) : KeepsResting enough i N d₀ s₀ (request q) := by
  rintro d p ⟨hp, hd⟩
  refine wp_request.mpr fun b w hw => ⟨hp.turn hN ?_, hd⟩
  have hs := hq p.world
  rwa [hw] at hs

lemma keeps_ofClient {α : Type} (x : Except ClientError α) (I : Stop → Prop) :
    Keeps answered I (Job.ofClient x) := by
  cases x with
  | ok a => exact keeps_pure a
  | error e => exact keeps_raise _

lemma keeps_verify (hN : Spared enough i N d₀ s₀) (n : String) (j : UUID) :
    KeepsResting enough i N d₀ s₀ (Job.verify n j) :=
  fun d => keeps_bind (keeps_request_resting hN (fun _ _ _ => rfl) d) fun _ => keeps_ofClient _ _

lemma keeps_now (hN : Spared enough i N d₀ s₀) : KeepsResting enough i N d₀ s₀ Job.now :=
  keeps_request_resting hN fun _ _ _ => rfl

lemma StoreOff.set {s : Store} {n : String} (hn : n ∈ N) (b : Option Blob) :
    StoreOff i N s (s.set n i b) := by
  intro m hm
  refine if_neg ?_
  rintro ⟨rfl, -⟩
  exact hm hn

lemma keeps_delete (hN : Spared enough i N d₀ s₀) {n : String} (hn : n ∈ N) :
    KeepsResting enough i N d₀ s₀ (Job.delete n i) := by
  refine fun d => keeps_bind (keeps_request_resting hN (fun w => ?_) d) fun _ => keeps_ofClient _ _
  change StoreOff i N w.store (deleteObject (w.future 0).fault n i w.store).2
  rcases deleteObject_store (w.future 0).fault n i w.store with h | h
  · rw [h]
    exact fun _ _ => rfl
  · rw [h]
    exact StoreOff.set hn none

lemma keeps_copy (hN : Spared enough i N d₀ s₀) {n m : String} (hm : m ∈ N) :
    KeepsResting enough i N d₀ s₀ (Job.copy n m i) := by
  refine fun d => keeps_bind (keeps_request_resting hN (fun _ _ _ => rfl) d) fun _ =>
    keeps_bind (keeps_ofClient _ _) fun _ =>
      keeps_bind (keeps_request_resting hN (fun w => ?_) d) fun _ => keeps_ofClient _ _
  change StoreOff i N w.store (putObject (w.future 0).fault m i (w.future 0).received w.store).2
  rcases putObject_store (w.future 0).fault m i (w.future 0).received w.store with h | h
  · rw [h]
    exact fun _ _ => rfl
  · rw [h]
    exact StoreOff.set hm _

end Within

end Vault.Rebalance
