import Vault.Gateway.RaceFrames
import Vault.Repair.Overlap

/-! Every move keeps the invariant, so a deleted object stays deleted as long as its repairs and
its deletions are kept apart. A repair that starts during a deletion outlives it. -/

namespace Vault.Gateway

open Vault.Common Vault.Metadata Vault.Storage Vault.Repair Vault.Lib Vault.Lib.Transaction

variable {o : UUID} {total : Prop} {w : Shared}

lemma RaceInv.jobs (h : RaceInv o total w) {db' : Db} (hr : db'.replicas = w.db.replicas)
    (hv : db'.versions = w.db.versions) (hn : db'.nodes = w.db.nodes)
    (ho : db'.objects = w.db.objects) (hi : w.db.nextId ≤ db'.nextId) :
    RaceInv o total { w with db := db' } := by
  refine h.setDb (h.wellFormed.frame hr hn hi) ⟨hv, hn, hi⟩ ?_ ?_ ?_ ?_
  · exact fun r hm => Or.inl ⟨r, hr ▸ hm, rfl, rfl⟩
  · intro _ r hm
    refine ⟨r, ?_, rfl⟩
    simpa only [mem_rowsOf, hr, OwnedBy, Db.version?, hv] using hm
  · exact fun q hq => Or.inl ⟨q, hr ▸ (mem_rowsOf.mp hq).1, rfl⟩
  · simp only [Entered, ho]
    exact id

lemma RaceInv.retarget (h : RaceInv o total w) {db' : Db} {target : Replica}
    (ht : Retargeted w.db target db')
    (hfree : OwnedBy w.db o target.versionId →
      (∀ j d, w.deletes j = some d → d.objectId ≠ o) ∧ ¬Entered o w.db) :
    RaceInv o total { w with db := db' } := by
  have hst : Stable w.db db' := ⟨ht.versions, ht.nodes, ht.nextId⟩
  refine h.setDb ht.wellFormed hst ?_ ?_ ?_ ?_
  · intro r hr
    rcases (ht.rows r).mp hr with ⟨hm, -⟩ | rfl
    · exact Or.inl ⟨r, hm, rfl, rfl⟩
    · rcases ht.fresh with ⟨q, hq, hpl⟩ | hf
      · exact Or.inl ⟨q, hq, (ht.before q hq hpl).1, hpl⟩
      · exact Or.inr hf
  · intro hbusy r hr
    obtain ⟨hm, hown⟩ := mem_rowsOf.mp hr
    rw [hst.ownedBy] at hown
    rcases (ht.rows r).mp hm with ⟨hm, -⟩ | rfl
    · exact ⟨r, mem_rowsOf.mpr ⟨hm, hown⟩, rfl⟩
    · obtain ⟨hno, hne⟩ := hfree hown
      rcases hbusy with ⟨k, d, hd, hdo⟩ | hd
      · exact absurd hdo (hno k d hd)
      · exact absurd hd hne
  · intro q hq
    by_cases hpl : q.place = target.place
    · exact Or.inl ⟨target, (ht.rows target).mpr (Or.inr rfl), hpl.symm⟩
    · exact Or.inl ⟨q, (ht.rows q).mpr (Or.inl ⟨(mem_rowsOf.mp hq).1, hpl⟩), rfl⟩
  · simp only [Entered, ht.objects]
    exact id

lemma RaceInv.not_entered (h : RaceInv o total w) {r : Replica} (hr : r ∈ w.db.replicas)
    (hown : OwnedBy w.db o r.versionId) : ¬Entered o w.db := by
  intro hd
  have hm := mem_rowsOf.mpr ⟨hr, hown⟩
  simp [(h.final hd).1] at hm

lemma RaceInv.startRepair (h : RaceInv o total w) (m k : ℕ) {repairId : UUID}
    (hsep : Separate o w (.startRepair k repairId)) :
    RaceInv o total { w with
      db := (startExecution m repairId w.db).2
      repairs := Function.update w.repairs k (startExecution m repairId w.db).1 } := by
  unfold startExecution
  rcases atomic_cases (beginJob m repairId) w.db with ⟨b, db', hb, he⟩ | ⟨f, -, he⟩
  · rw [he]
    cases beginJob_ok h.wellFormed hb with
    | closed f hne =>
      have hnone : b.execution = none := by
        cases b with
        | running e => exact absurd rfl (hne e)
        | _ => rfl
      simp only [hnone]
      have hj : RaceInv o total { w with db := w.db.amendRepairJob repairId f } :=
        h.jobs rfl rfl rfl rfl le_rfl
      refine hj.setRepair k ?_ ?_ <;> rintro _ ⟨⟩
    | @refused _ _ job source target ht hjob hsource hsv _ hver =>
      have hfree : OwnedBy w.db o target.versionId →
          (∀ j d, w.deletes j = some d → d.objectId ≠ o) ∧ ¬Entered o w.db := fun hown =>
        ⟨hsep _ hjob (hver ▸ hown), h.not_entered hsource (hsv ▸ hown)⟩
      refine (h.retarget ht hfree).setRepair k ?_ ?_ <;> rintro _ ⟨⟩
    | @running _ job version source target ht hjob hv hsource hsv _ hplace =>
      have hver : target.versionId = job.versionId := congrArg Prod.fst hplace
      have hfree : OwnedBy w.db o target.versionId →
          (∀ j d, w.deletes j = some d → d.objectId ≠ o) ∧ ¬Entered o w.db := fun hown =>
        ⟨hsep _ hjob (hver ▸ hown), h.not_entered hsource (hsv ▸ hown)⟩
      have hst : Stable w.db db' := ⟨ht.versions, ht.nodes, ht.nextId⟩
      refine (h.retarget ht hfree).setRepair k ?_ ?_
      · rintro _ ⟨⟩
        exact version?_id hv
      · rintro _ ⟨⟩ hown
        have hown' : OwnedBy w.db o target.versionId := hver ▸ hst.ownedBy.mp hown
        refine ⟨⟨target, (ht.rows target).mpr (Or.inr rfl), hplace⟩, (hfree hown').1, ?_⟩
        simpa only [Entered, ht.objects] using (hfree hown').2
  · rw [he]
    refine h.setRepair k ?_ ?_ <;> rintro _ ⟨⟩

lemma RaceInv.mark (h : RaceInv o total w) {seen : Replica → ReplicaState} {now : Time} {i : UUID}
    {c : Checksum} {z : ℕ} {row : Replica} {db' : Db}
    (hm : (markVerified seen now i c z).run w.db = .ok (row, db')) :
    RaceInv o total { w with db := db' } := by
  obtain ⟨r, v, -, hr, -, -, -, -, rfl⟩ := markVerified_ok hm
  have hmem : r ∈ w.db.replicas := Table.lookup_mem hr
  set f : Replica → Replica := fun r => (r.enter .healthy).verify now v.checksum v.sizeBytes
  have hrows := mem_amendReplica h.wellFormed hmem (f := f)
  refine h.setDb (h.wellFormed.amend _ (fun _ => rfl) (fun _ => rfl)) ⟨rfl, rfl, le_rfl⟩ ?_ ?_ ?_ id
  · intro q hq
    rcases (hrows q).mp hq with ⟨hq, -⟩ | rfl
    · exact Or.inl ⟨q, hq, rfl, rfl⟩
    · exact Or.inl ⟨r, hmem, rfl, rfl⟩
  · intro _ q hq
    obtain ⟨hqm, hown⟩ := mem_rowsOf.mp hq
    rcases (hrows q).mp hqm with ⟨hqm, -⟩ | rfl
    · exact ⟨q, mem_rowsOf.mpr ⟨hqm, hown⟩, rfl⟩
    · exact ⟨r, mem_rowsOf.mpr ⟨hmem, hown⟩, rfl⟩
  · intro q hq
    by_cases hpl : q.place = r.place
    · exact Or.inl ⟨f r, (hrows _).mpr (Or.inr rfl), hpl.symm⟩
    · exact Or.inl ⟨q, (hrows q).mpr (Or.inl ⟨(mem_rowsOf.mp hq).1, hpl⟩), rfl⟩

lemma RaceInv.enterPhase (h : RaceInv o total w) {k : ℕ} {e : Execution} (he : w.repairs k = some e)
    (phase : Phase) :
    RaceInv o total { w with repairs := Function.update w.repairs k (some (e.enter phase)) } := by
  apply h.setRepair k
  · rintro _ ⟨⟩
    exact h.versionIds k e he
  · rintro _ ⟨⟩ hown
    refine ⟨h.placed k e he hown, fun j d hd hdo => ?_, fun hd => ?_⟩
    · exact h.separate j d hd hdo k e he hown
    · exact (h.final hd).2 k e he hown

lemma RaceInv.repair (h : RaceInv o total w) {k : ℕ} {e : Execution} (he : w.repairs k = some e)
    {x : Option Execution} {db' : Db} {s' : Store} (ha : Advance e w.db w.store x db' s') :
    RaceInv o total { w with db := db', store := s', repairs := Function.update w.repairs k x } := by
  cases ha with
  | moved phase _ _ => exact h.enterPhase he phase
  | stored phase b _ _ => exact (h.setBytes he b).enterPhase he phase
  | verified b _ _ _ => exact h.enterPhase he _
  | marked _ hm => exact (h.mark hm).enterPhase he _
  | closed f =>
    have hj : RaceInv o total { w with db := w.db.amendRepairJob e.job.repairId f } :=
      h.jobs rfl rfl rfl rfl le_rfl
    refine hj.setRepair k ?_ ?_ <;> rintro _ ⟨⟩

lemma consistent_open {db : Db} (hw : db.WellFormed) (i : UUID) (pending : Bool) :
    Consistent db
      { objectId := i, pending := pending, calls := (rowsOf db i).map (callFor db) } := by
  constructor
  case owned =>
    intro c hc
    obtain ⟨r, -, hown, rfl⟩ := mem_calls hc
    exact hown
  case known =>
    intro c hc
    obtain ⟨r, -, -, rfl⟩ := mem_calls hc
    rfl
  case fresh =>
    intro c hc
    obtain ⟨r, hr, -, rfl⟩ := mem_calls hc
    exact hw.freshReplica r hr
  case matched =>
    intro c hc q hq hid
    obtain ⟨r, hr, -, rfl⟩ := mem_calls hc
    rw [hw.eq_of_id hq hr hid]
    rfl

lemma covering_open (db : Db) (store : Store) (i : UUID) (pending : Bool) :
    Covering db store
      { objectId := i, pending := pending, calls := (rowsOf db i).map (callFor db) } := by
  constructor
  case covered => exact fun _ r hr => ⟨callFor db r, List.mem_map_of_mem hr, rfl⟩
  case acked =>
    intro c hc ha
    obtain ⟨r, -, -, rfl⟩ := mem_calls hc
    cases ha
  case finished => intro hf; cases hf

lemma startDeletion_ok {name : Arg String} {db : Db} {d : Deletion} (h : startDeletion name db = some d) :
    ∃ obj, findObject db name = .ok obj ∧
      d = { objectId := obj.objectId, pending := obj.state = .active,
            calls := (rowsOf db obj.objectId).map (callFor db) } := by
  unfold startDeletion at h
  split at h
  · next hb =>
    subst h
    obtain ⟨obj, hobj, -, hd⟩ := beginDelete_ok hb
    exact ⟨obj, hobj, hd⟩
  · cases h

lemma confirmed_open (name : Arg String) (db : Db) : confirmed (startDeletion name db) = [] := by
  cases hd : startDeletion name db with
  | none => rfl
  | some d =>
    obtain ⟨obj, -, rfl⟩ := startDeletion_ok hd
    simp only [confirmed, List.map_eq_nil_iff, List.filter_eq_nil_iff]
    intro c hc
    obtain ⟨r, -, -, rfl⟩ := mem_calls hc
    simp [Call.succeeded, callFor]

lemma RaceInv.startDelete (h : RaceInv o total w) (k : ℕ) {name : Arg String}
    (hsep : Separate o w (.startDelete k name)) :
    RaceInv o total { w with deletes := Function.update w.deletes k (startDeletion name w.db) } := by
  have hset : RaceInv o total { w with
      deletes := Function.update w.deletes k (startDeletion name w.db)
      answered := w.answered ++ confirmed (startDeletion name w.db) } := by
    apply h.setDelete k
    · intro d hd
      obtain ⟨obj, -, rfl⟩ := startDeletion_ok hd
      exact consistent_open h.wellFormed _ _
    · intro d hd hdo
      obtain ⟨obj, hobj, rfl⟩ := startDeletion_ok hd
      exact ⟨covering_open _ _ _ _, fun j e hj hown => hsep obj hobj hdo j e hj hown⟩
  rwa [confirmed_open, List.append_nil] at hset

lemma Consistent.finish {db : Db} {d : Deletion} (h : Consistent db d) {k : ℕ} {c : Call}
    (hc : d.calls[k]? = some c) (ok : Bool) :
    Consistent db { d with calls := d.calls.set k (c.finish ok) } where
  owned := calls_set hc h.owned id
  known := calls_set hc h.known id
  fresh := calls_set hc h.fresh id
  matched := calls_set hc h.matched id

lemma Covering.finish {db : Db} {s : Store} {d : Deletion} (h : Covering db s d) {k : ℕ} {c : Call}
    (hc : d.calls[k]? = some c) {ok : Bool} (hok : ok = true → c.known = true → s c.nodeId c.versionId = none) :
    Covering db s { d with calls := d.calls.set k (c.finish ok) } where
  covered hg r hr := by
    obtain ⟨x, hx, hid⟩ := h.covered hg r hr
    obtain ⟨j, hj⟩ := List.mem_iff_getElem?.mp hx
    by_cases hjk : k = j
    · subst hjk
      rw [hc] at hj
      cases hj
      refine ⟨c.finish ok, List.mem_iff_getElem?.mpr ⟨k, ?_⟩, hid⟩
      rw [List.getElem?_set_self (List.getElem?_eq_some_iff.mp hc).1]
    · refine ⟨x, List.mem_iff_getElem?.mpr ⟨j, ?_⟩, hid⟩
      rw [List.getElem?_set_ne hjk]
      exact hj
  acked x hx ha hk := by
    rcases List.mem_or_eq_of_mem_set hx with hx | rfl
    · exact h.acked x hx ha hk
    · exact hok (by simpa [Call.succeeded, Call.finish] using ha) hk
  finished := h.finished

lemma mem_flush {d : Deletion} {db : Db} {r : Replica} :
    r ∈ (d.flush db).replicas ↔ r ∈ db.replicas ∧
      ∀ c ∈ d.calls, c.succeeded = true → c.replicaId ≠ r.replicaId := by
  rw [flush_replicas, List.mem_filter]
  simp

lemma flush_stable (d : Deletion) (db : Db) : Stable db (d.flush db) where
  versions := flush_versions d db
  nodes := flush_nodes d db
  nextId := by
    unfold Deletion.flush
    dsimp only
    split_ifs <;> exact le_rfl

lemma entered_amend {db : Db} {i : UUID} {state : ObjectState} (hs : state ≠ .deleted ∨ i ≠ o)
    (h : Entered o (db.amendObject i (Object.enter state))) : Entered o db := by
  obtain ⟨p, hp, hpo, hpd⟩ := h
  obtain ⟨q, hq, rfl⟩ := Table.mem_amend.mp hp
  split_ifs at hpo hpd with hi
  · rcases hs with hs | hs
    · exact absurd hpd hs
    · exact absurd (hi.symm.trans hpo) hs
  · exact ⟨q, hq, hpo, hpd⟩

lemma entered_flush {d : Deletion} {db : Db} (h : Entered o (d.flush db)) : Entered o db := by
  unfold Deletion.flush at h
  dsimp only at h
  split_ifs at h
  · have hrows : Entered o (removeRows _ db) := entered_amend (Or.inl (by decide)) h
    exact hrows
  · exact h

lemma RaceInv.flush (h : RaceInv o total w) {k : ℕ} {d : Deletion} (hd : w.deletes k = some d) :
    RaceInv o total { w with db := d.flush w.db } := by
  have hcon := h.consistent k d hd
  have hst := flush_stable d w.db
  have hsub : ∀ r ∈ (d.flush w.db).replicas, r ∈ w.db.replicas := fun r hr => (mem_flush.mp hr).1
  refine h.setDb ?_ hst ?_ ?_ ?_ entered_flush
  · constructor
    case replicaIds =>
      rw [flush_replicas]
      exact h.wellFormed.replicaIds.sublist (List.filter_sublist.map _)
    case freshReplica => exact fun r hr => (h.wellFormed.freshReplica r (hsub r hr)).trans_le hst.nextId
    case places =>
      rw [flush_replicas]
      exact h.wellFormed.places.sublist (List.filter_sublist.map _)
    case nodeIds => exact flush_nodes d w.db ▸ h.wellFormed.nodeIds
  · exact fun r hr => Or.inl ⟨r, hsub r hr, rfl, rfl⟩
  · intro _ r hr
    obtain ⟨hm, hown⟩ := mem_rowsOf.mp hr
    exact ⟨r, mem_rowsOf.mpr ⟨hsub r hm, hst.ownedBy.mp hown⟩, rfl⟩
  · intro q hq
    obtain ⟨hm, hown⟩ := mem_rowsOf.mp hq
    by_cases hgone : ∃ c ∈ d.calls, c.succeeded = true ∧ c.replicaId = q.replicaId
    · obtain ⟨c, hc, hsu, hid⟩ := hgone
      obtain ⟨hver, hnode⟩ : q.versionId = c.versionId ∧ q.nodeId = c.nodeId :=
        Prod.mk.inj (hcon.matched c hc q hm hid.symm)
      have hdo : d.objectId = o := ownedBy_unique (hcon.owned c hc) (hver ▸ hown)
      refine Or.inr ⟨h.separate k d hd hdo, fun hn => ?_⟩
      rw [hver, hnode]
      refine (h.covering k d hd hdo).acked c hc hsu ?_
      rw [hcon.known c hc, ← hnode]
      exact hn
    · push Not at hgone
      exact Or.inl ⟨q, mem_flush.mpr ⟨hm, hgone⟩, rfl⟩

lemma RaceInv.entered (h : RaceInv o total w) {k : ℕ} {d : Deletion} (hd : w.deletes k = some d)
    (hf : d.phase = .finish) :
    RaceInv o total { w with db := w.db.amendObject d.objectId (Object.enter .deleted) } := by
  by_cases hdo : d.objectId = o
  · constructor
    case wellFormed => exact h.wellFormed.frame rfl rfl le_rfl
    case versionIds => exact h.versionIds
    case placed => exact h.placed
    case consistent =>
      intro j f hj
      have hc := h.consistent j f hj
      exact ⟨hc.owned, hc.known, hc.fresh, hc.matched⟩
    case covering =>
      intro j f hj hfo
      have hc := h.covering j f hj hfo
      exact ⟨hc.covered, hc.acked, hc.finished⟩
    case separate => exact h.separate
    case accounted => exact h.accounted
    case answeredKnown => exact h.answeredKnown
    case final => exact fun _ => ⟨hdo ▸ (h.covering k d hd hdo).finished hf, h.separate k d hd hdo⟩
  · refine h.setDb (h.wellFormed.frame rfl rfl le_rfl) ⟨rfl, rfl, le_rfl⟩
      (fun r hr => Or.inl ⟨r, hr, rfl, rfl⟩) (fun _ r hr => ⟨r, hr, rfl⟩)
      (fun q hq => Or.inl ⟨q, (mem_rowsOf.mp hq).1, rfl⟩) (entered_amend (Or.inr hdo))

lemma RaceInv.delete (h : RaceInv o total w) {k : ℕ} {d : Deletion} (hd : w.deletes k = some d)
    {x : Option Deletion} {db' : Db} {s' : Store} (hs : Deleted d w.db w.store x db' s') :
    RaceInv o total { w with
      db := db', store := s', deletes := Function.update w.deletes k x,
      answered := w.answered ++ confirmed x } := by
  have hcon := h.consistent k d hd
  have hcov : d.objectId = o → Covering w.db w.store d := h.covering k d hd
  have hsep : d.objectId = o → ∀ j e, w.repairs j = some e → ¬OwnedBy w.db o e.job.versionId :=
    h.separate k d hd
  cases hs with
  | idle =>
    apply h.setDelete k
    · rintro _ ⟨⟩
      exact hcon
    · rintro _ ⟨⟩ hdo
      exact ⟨hcov hdo, hsep hdo⟩
  | unregistered hg hc hr hk =>
    apply h.setDelete k
    · rintro _ ⟨⟩
      exact hcon.finish hc _
    · rintro _ ⟨⟩ hdo
      exact ⟨(hcov hdo).finish hc (by simp [hk]), hsep hdo⟩
  | refused hg hc hr hk =>
    apply h.setDelete k
    · rintro _ ⟨⟩
      exact hcon.finish hc _
    · rintro _ ⟨⟩ hdo
      exact ⟨(hcov hdo).finish hc (by simp), hsep hdo⟩
  | @removed j c ok hg hc hr hk =>
    have hclear := h.clearBytes c.nodeId c.versionId
    apply hclear.setDelete k
    · rintro _ ⟨⟩
      exact hcon.finish hc _
    · rintro _ ⟨⟩ hdo
      exact ⟨(hclear.covering k d hd hdo).finish hc (fun _ _ => Store.set_self _ _ _ _), hsep hdo⟩
  | failed hg hall => refine (h.flush hd).setDelete k ?_ ?_ <;> rintro _ ⟨⟩
  | cleared hg hall =>
    have hflush := h.flush hd
    apply hflush.setDelete k
    · rintro _ ⟨⟩
      have hc' := hflush.consistent k d hd
      exact ⟨hc'.owned, hc'.known, hc'.fresh, hc'.matched⟩
    · rintro _ ⟨⟩ hdo
      have hc' := hflush.covering k d hd hdo
      refine ⟨⟨?_, hc'.acked, fun _ => ?_⟩, hflush.separate k d hd hdo⟩
      · intro hfin
        cases hfin
      -- every row of the object has a call, and every call succeeded
      apply List.eq_nil_iff_forall_not_mem.mpr
      intro r hr
      obtain ⟨c, hcm, hid⟩ := hc'.covered hg r hr
      exact (mem_flush.mp (mem_rowsOf.mp hr).1).2 c hcm (hall c hcm) hid
  | aborted => refine h.setDelete k ?_ ?_ <;> rintro _ ⟨⟩
  | entered hf => refine (h.entered hd hf).setDelete k ?_ ?_ <;> rintro _ ⟨⟩

lemma insertRepairJob_inv (h : RaceInv o total w) (job : RepairJob) :
    RaceInv o total { w with db := insertRepairJob job w.db } :=
  h.jobs rfl rfl rfl rfl (Nat.le_succ _)

lemma RaceInv.step (h : RaceInv o total w) (cfg : Config) {m : Move} (hsep : Separate o w m) :
    RaceInv o total (w.step cfg m) := by
  cases m with
  | startRepair k repairId =>
    simp only [Shared.step]
    split
    · exact h
    · exact h.startRepair cfg.maxAttempts k hsep
  | repair k fault received now =>
    simp only [Shared.step]
    split
    · exact h
    · next e he => exact h.repair he (execution_step_advance cfg fault received now e w.db w.store)
  | stopRepair k => refine h.setRepair k ?_ ?_ <;> rintro _ ⟨⟩
  | startDelete k name =>
    simp only [Shared.step]
    split
    · exact h
    · exact h.startDelete k hsep
  | delete k a =>
    simp only [Shared.step]
    split
    · exact h
    · next d hd => exact h.delete hd (deletion_step_deleted cfg.refresh d w.db w.store a)
  | stopDelete k =>
    have hset : RaceInv o total { w with
        deletes := Function.update w.deletes k none, answered := w.answered ++ confirmed none } := by
      refine h.setDelete k ?_ ?_ <;> rintro _ ⟨⟩
    rwa [confirmed, List.append_nil] at hset
  | schedule i rf reason preferred =>
    simp only [Shared.step]
    rcases atomic_cases (scheduleForVersion i rf reason preferred) w.db with
      ⟨d, db', hb, he⟩ | ⟨f, -, he⟩
    · rw [he]
      rcases scheduleForVersion_ok hb with ⟨-, rfl⟩ | ⟨job, -, rfl⟩
      · exact h
      · exact insertRepairJob_inv h job
    · rw [he]
      exact h
  | createJob i source target reason =>
    simp only [Shared.step]
    rcases atomic_cases (Repair.createJob i source target reason) w.db with
      ⟨d, db', hb, he⟩ | ⟨f, -, he⟩
    · rw [he]
      rcases createJob_ok hb with ⟨job, -, rfl⟩ | ⟨job, -, rfl⟩
      · exact h
      · exact insertRepairJob_inv h job
    · rw [he]
      exact h

lemma RaceInv.run (h : RaceInv o total w) (cfg : Config) {moves : List Move}
    (hsep : SeparateRun o cfg w moves) : RaceInv o total (w.run cfg moves) := by
  induction moves generalizing w with
  | nil => exact h
  | cons m moves ih => exact ih (h.step cfg hsep.1) hsep.2

lemma RaceInv.no_bytes (h : RaceInv o total w) (hd : Entered o w.db) {n : String} {i : UUID}
    (hown : OwnedBy w.db o i) (hn : (w.db.node? n).isSome) (ha : total ∨ (n, i) ∈ w.answered) :
    w.store n i = none := by
  by_contra hb
  obtain ⟨r, hr, hpl⟩ := h.accounted n i hown hn ha hb
  have hver : r.versionId = i := congrArg Prod.fst hpl
  have hm : r ∈ rowsOf w.db o := mem_rowsOf.mpr ⟨hr, hver ▸ hown⟩
  simp [(h.final hd).1] at hm

lemma RaceInv.gone (h : RaceInv o total w) : Gone o w := fun hd =>
  ⟨(h.final hd).1, fun p hp hown => h.no_bytes hd hown (h.answeredKnown p hp) (Or.inr hp)⟩

end Vault.Gateway
