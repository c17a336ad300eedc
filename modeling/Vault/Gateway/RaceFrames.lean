import Vault.Gateway.Races

/-! What a move may change and how the invariant of the races survives it: the tables, the slot of
a repair, the slot of a deletion, or the bytes of one node. -/

namespace Vault.Gateway

open Vault.Common Vault.Metadata Vault.Storage Vault.Repair Vault.Lib Vault.Lib.Transaction

structure Stable (db db' : Db) : Prop where
  versions : db'.versions = db.versions
  nodes : db'.nodes = db.nodes
  nextId : db.nextId ≤ db'.nextId

lemma Stable.refl (db : Db) : Stable db db := ⟨rfl, rfl, le_rfl⟩

lemma Stable.ownedBy {db db' : Db} (h : Stable db db') {o i : UUID} :
    OwnedBy db' o i ↔ OwnedBy db o i := by
  simp only [OwnedBy, Db.version?, h.versions]

lemma Stable.node? {db db' : Db} (h : Stable db db') (n : String) : db'.node? n = db.node? n := by
  simp only [Db.node?, h.nodes]

lemma mem_rowsOf {db : Db} {o : UUID} {r : Replica} :
    r ∈ rowsOf db o ↔ r ∈ db.replicas ∧ OwnedBy db o r.versionId := by
  simp [rowsOf]

lemma ownedBy_unique {db : Db} {o p i : UUID} (h : OwnedBy db o i) (h' : OwnedBy db p i) : o = p := by
  obtain ⟨v, hv, ho⟩ := h
  obtain ⟨v', hv', hp⟩ := h'
  rw [← ho, ← hp, Option.mem_unique hv hv']

/-- The rows of the new tables are old rows, by identity and place, or have new identities. -/
def RowsTraced (db db' : Db) : Prop :=
  ∀ r ∈ db'.replicas, (∃ q ∈ db.replicas, q.replicaId = r.replicaId ∧ q.place = r.place) ∨
    db.nextId ≤ r.replicaId.n

def RowsShrink (o : UUID) (db db' : Db) : Prop :=
  ∀ r ∈ rowsOf db' o, ∃ q ∈ rowsOf db o, q.replicaId = r.replicaId

/-- A row of the object stays, or nobody repairs the object and the row's node is empty. -/
def PlacesKept (o : UUID) (w : Shared) (db' : Db) : Prop :=
  ∀ q ∈ rowsOf w.db o, (∃ r ∈ db'.replicas, r.place = q.place) ∨
    (∀ k e, w.repairs k = some e → ¬OwnedBy w.db o e.job.versionId) ∧
      ((w.db.node? q.nodeId).isSome → w.store q.nodeId q.versionId = none)

def Entered (o : UUID) (db : Db) : Prop := ∃ p ∈ db.objects, p.objectId = o ∧ p.state = .deleted

lemma RowsShrink.empty {o : UUID} {db db' : Db} (h : RowsShrink o db db') (he : rowsOf db o = []) :
    rowsOf db' o = [] := by
  apply List.eq_nil_iff_forall_not_mem.mpr
  intro r hr
  obtain ⟨q, hq, -⟩ := h r hr
  simp [he] at hq

lemma Consistent.mono {db db' : Db} {d : Deletion} (h : Consistent db d) (hs : Stable db db')
    (ht : RowsTraced db db') : Consistent db' d where
  owned c hc := hs.ownedBy.mpr (h.owned c hc)
  known c hc := by rw [hs.node?, h.known c hc]
  fresh c hc := (h.fresh c hc).trans_le hs.nextId
  matched c hc r hr he := by
    rcases ht r hr with ⟨q, hq, hid, hp⟩ | hf
    · rw [← hp]
      exact h.matched c hc q hq (hid.trans he)
    · have hlt := h.fresh c hc
      rw [he] at hf
      omega

lemma Covering.mono {db db' : Db} {s s' : Store} {d : Deletion} (h : Covering db s d)
    (hr : RowsShrink d.objectId db db') (hb : ∀ n i, s n i = none → s' n i = none) :
    Covering db' s' d where
  covered hg r hm := by
    obtain ⟨q, hq, hid⟩ := hr r hm
    obtain ⟨c, hc, hcid⟩ := h.covered hg q hq
    exact ⟨c, hc, hcid.trans hid⟩
  acked c hc ha hk := hb _ _ (h.acked c hc ha hk)
  finished hf := hr.empty (h.finished hf)

variable {o : UUID} {total : Prop} {w : Shared}

/-- A change of the tables alone. Rows of the object may be added only while nobody deletes it and
it is not deleted. -/
lemma RaceInv.setDb (h : RaceInv o total w) {db' : Db} (hw : db'.WellFormed) (hs : Stable w.db db')
    (ht : RowsTraced w.db db')
    (hr : (∃ k d, w.deletes k = some d ∧ d.objectId = o) ∨ Entered o w.db → RowsShrink o w.db db')
    (hp : PlacesKept o w db') (ho : Entered o db' → Entered o w.db) :
    RaceInv o total { w with db := db' } where
  wellFormed := hw
  versionIds := h.versionIds
  placed k e he hown := by
    rw [hs.ownedBy] at hown
    obtain ⟨r, hm, hpl⟩ := h.placed k e he hown
    have hv : r.versionId = e.job.versionId := congrArg Prod.fst hpl
    rcases hp r (mem_rowsOf.mpr ⟨hm, hv ▸ hown⟩) with ⟨r', hr', hpl'⟩ | ⟨hnone, -⟩
    · exact ⟨r', hr', hpl'.trans hpl⟩
    · exact absurd hown (hnone k e he)
  consistent k d hd := (h.consistent k d hd).mono hs ht
  covering k d hd hdo :=
    (h.covering k d hd hdo).mono (hdo ▸ hr (Or.inl ⟨k, d, hd, hdo⟩)) (fun _ _ => id)
  separate j d hd hdo k e he hown := h.separate j d hd hdo k e he (hs.ownedBy.mp hown)
  accounted n i hown hn ha hb := by
    rw [hs.ownedBy] at hown
    rw [hs.node?] at hn
    obtain ⟨r, hm, hpl⟩ := h.accounted n i hown hn ha hb
    obtain ⟨rfl, rfl⟩ : r.versionId = i ∧ r.nodeId = n := Prod.mk.inj hpl
    rcases hp r (mem_rowsOf.mpr ⟨hm, hown⟩) with ⟨r', hr', hpl'⟩ | ⟨-, hnone⟩
    · exact ⟨r', hr', hpl'⟩
    · exact absurd (hnone hn) hb
  answeredKnown p hpa := by
    change (db'.node? p.1).isSome
    rw [hs.node?]
    exact h.answeredKnown p hpa
  final hd := by
    obtain ⟨hnil, hnone⟩ := h.final (ho hd)
    exact ⟨(hr (Or.inr (ho hd))).empty hnil, fun k e he hown => hnone k e he (hs.ownedBy.mp hown)⟩

lemma RaceInv.setRepair (h : RaceInv o total w) (k : ℕ) {x : Option Execution}
    (hv : ∀ e, x = some e → e.version.versionId = e.job.versionId)
    (hx : ∀ e, x = some e → OwnedBy w.db o e.job.versionId → Placed w.db e ∧
      (∀ j d, w.deletes j = some d → d.objectId ≠ o) ∧ ¬Entered o w.db) :
    RaceInv o total { w with repairs := Function.update w.repairs k x } := by
  have hcases : ∀ j e, Function.update w.repairs k x j = some e → x = some e ∨ w.repairs j = some e := by
    intro j e hj
    by_cases hjk : j = k
    · subst hjk
      rw [Function.update_self] at hj
      exact Or.inl hj
    · rw [Function.update_of_ne hjk] at hj
      exact Or.inr hj
  constructor
  case wellFormed => exact h.wellFormed
  case versionIds =>
    intro j e hj
    rcases hcases j e hj with he | he
    · exact hv e he
    · exact h.versionIds j e he
  case placed =>
    intro j e hj hown
    rcases hcases j e hj with he | he
    · exact (hx e he hown).1
    · exact h.placed j e he hown
  case consistent => exact h.consistent
  case covering => exact h.covering
  case separate =>
    intro j d hd hdo i e hi hown
    rcases hcases i e hi with he | he
    · exact (hx e he hown).2.1 j d hd hdo
    · exact h.separate j d hd hdo i e he hown
  case accounted => exact h.accounted
  case answeredKnown => exact h.answeredKnown
  case final =>
    intro hd
    refine ⟨(h.final hd).1, fun i e hi hown => ?_⟩
    rcases hcases i e hi with he | he
    · exact (hx e he hown).2.2 hd
    · exact (h.final hd).2 i e he hown

lemma RaceInv.setDelete (h : RaceInv o total w) (k : ℕ) {x : Option Deletion}
    (hc : ∀ d, x = some d → Consistent w.db d)
    (hx : ∀ d, x = some d → d.objectId = o → Covering w.db w.store d ∧
      ∀ j e, w.repairs j = some e → ¬OwnedBy w.db o e.job.versionId) :
    RaceInv o total
      { w with deletes := Function.update w.deletes k x, answered := w.answered ++ confirmed x } := by
  have hcases : ∀ j d, Function.update w.deletes k x j = some d → x = some d ∨ w.deletes j = some d := by
    intro j d hj
    by_cases hjk : j = k
    · subst hjk
      rw [Function.update_self] at hj
      exact Or.inl hj
    · rw [Function.update_of_ne hjk] at hj
      exact Or.inr hj
  have hconf : ∀ p ∈ confirmed x, ∃ d, x = some d ∧ ∃ c ∈ d.calls, c.succeeded = true ∧
      c.known = true ∧ p = (c.nodeId, c.versionId) := by
    intro p hp
    cases x with
    | none => cases hp
    | some d =>
      obtain ⟨c, hc, rfl⟩ := List.mem_map.mp hp
      obtain ⟨hm, hsk⟩ := List.mem_filter.mp hc
      simp only [Bool.and_eq_true] at hsk
      exact ⟨d, rfl, c, hm, hsk.1, hsk.2, rfl⟩
  constructor
  case wellFormed => exact h.wellFormed
  case versionIds => exact h.versionIds
  case placed => exact h.placed
  case consistent =>
    intro j d hj
    rcases hcases j d hj with hd | hd
    · exact hc d hd
    · exact h.consistent j d hd
  case covering =>
    intro j d hj hdo
    rcases hcases j d hj with hd | hd
    · exact (hx d hd hdo).1
    · exact h.covering j d hd hdo
  case separate =>
    intro j d hj hdo
    rcases hcases j d hj with hd | hd
    · exact (hx d hd hdo).2
    · exact h.separate j d hd hdo
  case accounted =>
    intro n i hown hn ha hb
    rcases ha with ha | ha
    · exact h.accounted n i hown hn (Or.inl ha) hb
    rcases List.mem_append.mp ha with ha | ha
    · exact h.accounted n i hown hn (Or.inr ha) hb
    · -- a node that has just answered no longer holds the bytes
      obtain ⟨d, hd, c, hcm, hsu, hkn, hp⟩ := hconf _ ha
      cases hp
      have hdo : d.objectId = o := ownedBy_unique ((hc d hd).owned c hcm) hown
      exact absurd ((hx d hd hdo).1.acked c hcm hsu hkn) hb
  case answeredKnown =>
    intro p hp
    rcases List.mem_append.mp hp with hp | hp
    · exact h.answeredKnown p hp
    · obtain ⟨d, hd, c, hcm, -, hkn, rfl⟩ := hconf _ hp
      rw [(hc d hd).known c hcm] at hkn
      exact hkn
  case final => exact h.final

/-- A repair writes the bytes of its own target. -/
lemma RaceInv.setBytes (h : RaceInv o total w) {k : ℕ} {e : Execution} (he : w.repairs k = some e)
    (b : Option Blob) :
    RaceInv o total { w with store := w.store.set e.job.targetNodeId e.version.versionId b } := by
  have hv := h.versionIds k e he
  -- bytes of the object change only while nobody deletes it
  have hsame : ∀ j d, w.deletes j = some d → d.objectId = o → ∀ n i, OwnedBy w.db o i →
      w.store.set e.job.targetNodeId e.version.versionId b n i = w.store n i := by
    intro j d hd hdo n i hown
    apply Store.set_ne
    intro hpl
    have hi : i = e.job.versionId := (congrArg Prod.fst hpl).trans hv
    exact h.separate j d hd hdo k e he (hi ▸ hown)
  constructor
  case wellFormed => exact h.wellFormed
  case versionIds => exact h.versionIds
  case placed => exact h.placed
  case consistent => exact h.consistent
  case covering =>
    intro j d hd hdo
    have hcov := h.covering j d hd hdo
    refine ⟨hcov.covered, fun c hc ha hk => ?_, hcov.finished⟩
    have hown : OwnedBy w.db o c.versionId := hdo ▸ (h.consistent j d hd).owned c hc
    exact (hsame j d hd hdo _ _ hown).trans (hcov.acked c hc ha hk)
  case separate => exact h.separate
  case accounted =>
    intro n i hown hn ha hb
    by_cases hpl : (i, n) = (e.version.versionId, e.job.targetNodeId)
    · rw [Prod.mk.injEq] at hpl
      obtain ⟨rfl, rfl⟩ := hpl
      rw [hv] at hown ⊢
      exact h.placed k e he hown
    · have hstore : w.store.set e.job.targetNodeId e.version.versionId b n i = w.store n i :=
        Store.set_ne hpl
      exact h.accounted n i hown hn ha (hstore ▸ hb)
  case answeredKnown => exact h.answeredKnown
  case final => exact h.final

lemma RaceInv.clearBytes (h : RaceInv o total w) (n : String) (i : UUID) :
    RaceInv o total { w with store := w.store.set n i none } := by
  have hclear : ∀ m j, w.store m j = none → w.store.set n i none m j = none := by
    intro m j hm
    by_cases hpl : (j, m) = (i, n)
    · cases hpl
      exact Store.set_self _ _ _ _
    · rw [Store.set_ne hpl]
      exact hm
  constructor
  case wellFormed => exact h.wellFormed
  case versionIds => exact h.versionIds
  case placed => exact h.placed
  case consistent => exact h.consistent
  case covering =>
    intro k d hd hdo
    exact (h.covering k d hd hdo).mono (fun r hr => ⟨r, hr, rfl⟩) hclear
  case separate => exact h.separate
  case accounted =>
    intro m j hown hm ha hb
    exact h.accounted m j hown hm ha (fun hn => hb (hclear m j hn))
  case answeredKnown => exact h.answeredKnown
  case final => exact h.final

end Vault.Gateway
