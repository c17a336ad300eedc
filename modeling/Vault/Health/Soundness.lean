import Vault.Health.ScanEffects

/-! Failure detection is sound. Over a run of heartbeats and scans a status changes along one edge at a time,
and a node is suspected or given up only for silence: the run itself tells when the node was heard last, and
that an earlier scan suspected it. -/

namespace Vault.Health

open Vault.Common Vault.Metadata Vault.Storage Vault.Lib Vault.Lib.Script Vault.Lib.Transaction

inductive Tick
  | heartbeat (payload : HeartbeatPayload)
  | scan (now : Time)
  deriving DecidableEq, Repr

def Tick.step : Tick → Step
  | .heartbeat payload => .ingest payload
  | .scan now => .scan now

variable {ρ : Type}

/-- One call of a run, between the points before and after it. -/
structure Moment (ρ : Type) where
  before : Watch ρ
  tick : Tick
  after : Watch ρ

def lastStored (db : Db) (n : String) : Option Time := (db.node? n).bind StorageNode.lastHeartbeatAt

/-- The node comes into the state. -/
def Moved (db db' : Db) (n : String) (state : NodeState) : Prop :=
  statusOf db n ≠ some state ∧ statusOf db' n = some state

instance (db db' : Db) (n : String) (state : NodeState) : Decidable (Moved db db' n state) :=
  inferInstanceAs (Decidable (_ ∧ _))

def Moment.Moves (m : Moment ρ) (n : String) (state : NodeState) : Prop :=
  (∃ now, m.tick = .scan now) ∧ Moved m.before.session.view m.after.session.view n state

section Runs

variable (serve : ∀ {β : Type}, Request β → ρ → β × ρ) (policy : Policy)

def moment (p : Watch ρ) (tick : Tick) : Moment ρ := ⟨p, tick, perform serve policy p tick.step⟩

def moments : Watch ρ → List Tick → List (Moment ρ)
  | _, [] => []
  | p, tick :: ticks => moment serve policy p tick :: moments (moment serve policy p tick).after ticks

/-- The moment is a heartbeat of the node with this timestamp, and `ingest` reports it as accepted. -/
def Accepted (m : Moment ρ) (n : String) (t : Time) : Prop :=
  ∃ payload result, m.tick = .heartbeat payload ∧ payload.nodeId = n ∧ payload.timestamp = t ∧
    (exec serve (ingest payload) (resume m.before)).1 = .ok result ∧ result.accepted = true

/-- No heartbeat of the node is accepted. -/
def Silent (n : String) (ms : List (Moment ρ)) : Prop := ∀ m ∈ ms, ∀ t, ¬Accepted serve m n t

/-- The timestamp of the last accepted heartbeat, which may be older than the run. -/
def LastHeard (db : Db) (past : List (Moment ρ)) (n : String) (t : Time) : Prop :=
  (∃ earlier m quiet, past = earlier ++ m :: quiet ∧ Accepted serve m n t ∧ Silent serve n quiet) ∨
    (Silent serve n past ∧ lastStored db n = some t)

/-- A scan suspected the node, and no heartbeat of it was accepted since. -/
def SuspectedSince (past : List (Moment ρ)) (n : String) : Prop :=
  ∃ earlier m quiet, past = earlier ++ m :: quiet ∧ m.Moves n .suspect ∧ Silent serve n quiet

end Runs

/-- What a call may do, given the calls before it and the tables `db` of the start. -/
structure Sound (serve : ∀ {β : Type}, Request β → ρ → β × ρ) (delays : Delays) (db : Db) (past : List (Moment ρ))
    (m : Moment ρ) : Prop where
  edge : ∀ n, statusOf m.after.session.view n = statusOf m.before.session.view n ∨
    ∃ s s', statusOf m.before.session.view n = some s ∧ statusOf m.after.session.view n = some s' ∧
      s' ∈ nodeStateTransitions s
  suspected : ∀ now n, m.tick = .scan now → m.Moves n .suspect →
    ∃ last, LastHeard serve db past n last ∧ delays.suspectAfter ≤ now - last
  lost : ∀ now n, m.tick = .scan now → m.Moves n .unavailable →
    (∃ last, LastHeard serve db past n last ∧ delays.unavailableAfter ≤ now - last) ∧ SuspectedSince serve past n
  replicas : ∀ now, m.tick = .scan now → m.after.session.view.replicas = m.before.session.view.replicas.map (fun r =>
    if Moved m.before.session.view m.after.session.view r.nodeId .unavailable ∧
      Committed m.before.session.view r ∧ r.status = .healthy then r.enter .unavailable else r)

section Tracking

variable {serve : ∀ {β : Type}, Request β → ρ → β × ρ} {policy : Policy} {db : Db} {past : List (Moment ρ)}
  {m : Moment ρ} {n : String} {t : Time}

lemma Silent.concat (h : Silent serve n past) (hm : ∀ t, ¬Accepted serve m n t) : Silent serve n (past ++ [m]) := by
  intro m' hm'
  rcases List.mem_append.mp hm' with hm' | hm'
  · exact h m' hm'
  · obtain rfl := List.mem_singleton.mp hm'
    exact hm

lemma lastHeard_concat : LastHeard serve db (past ++ [m]) n t ↔
    Accepted serve m n t ∨ (∀ t, ¬Accepted serve m n t) ∧ LastHeard serve db past n t := by
  constructor
  · rintro (⟨earlier, m', quiet, he, hacc, hquiet⟩ | ⟨hquiet, hrow⟩)
    · rcases List.eq_nil_or_concat quiet with rfl | ⟨quiet, x, rfl⟩
      · obtain ⟨rfl, hm⟩ := List.append_inj' he rfl
        cases hm
        exact Or.inl hacc
      · rw [List.concat_eq_append] at he hquiet
        rw [← List.cons_append, ← List.append_assoc] at he
        obtain ⟨rfl, hm⟩ := List.append_inj' he rfl
        cases hm
        refine Or.inr ⟨hquiet m (by simp), Or.inl ⟨earlier, m', quiet, rfl, hacc, ?_⟩⟩
        exact fun y hy => hquiet y (List.mem_append_left _ hy)
    · refine Or.inr ⟨hquiet m (by simp), Or.inr ⟨?_, hrow⟩⟩
      exact fun y hy => hquiet y (List.mem_append_left _ hy)
  · rintro (hacc | ⟨hm, ⟨earlier, m', quiet, rfl, hacc, hquiet⟩ | ⟨hquiet, hrow⟩⟩)
    · exact Or.inl ⟨past, m, [], rfl, hacc, by simp [Silent]⟩
    · exact Or.inl ⟨earlier, m', quiet ++ [m], by simp, hacc, hquiet.concat hm⟩
    · exact Or.inr ⟨hquiet.concat hm, hrow⟩

lemma lastHeard_unheard (hm : ∀ t, ¬Accepted serve m n t) :
    LastHeard serve db (past ++ [m]) n t ↔ LastHeard serve db past n t := by
  rw [lastHeard_concat, or_iff_right (hm t), and_iff_right hm]

lemma Accepted.unique {t' : Time} (h : Accepted serve m n t) (h' : Accepted serve m n t') : t = t' := by
  obtain ⟨payload, -, ht, -, rfl, -⟩ := h
  obtain ⟨payload', -, ht', -, rfl, -⟩ := h'
  cases ht.symm.trans ht'
  rfl

lemma SuspectedSince.concat (h : SuspectedSince serve past n) (hm : ∀ t, ¬Accepted serve m n t) :
    SuspectedSince serve (past ++ [m]) n := by
  obtain ⟨earlier, m', quiet, rfl, hmoves, hquiet⟩ := h
  exact ⟨earlier, m', quiet ++ [m], by simp, hmoves, hquiet.concat hm⟩

/-- The rows agree with the history. -/
structure Tracked (serve : ∀ {β : Type}, Request β → ρ → β × ρ) (db : Db) (past : List (Moment ρ)) (view : Db) :
    Prop where
  registered : Registered view
  heard : ∀ n t, lastStored view n = some t ↔ LastHeard serve db past n t
  suspected : ∀ n, statusOf view n = some .suspect → SuspectedSince serve past n ∨ statusOf db n = some .suspect

lemma Tracked.start (h : Registered db) : Tracked serve db ([] : List (Moment ρ)) db :=
  ⟨h, fun n t => by simp [LastHeard, Silent], fun _ hn => Or.inr hn⟩

/-- A call that accepts nothing and leaves the heartbeats as they are. -/
lemma Tracked.unheard (h : Tracked serve db past m.before.session.view) (hm : ∀ n t, ¬Accepted serve m n t)
    (hreg : Registered m.after.session.view)
    (hlast : ∀ n, lastStored m.after.session.view n = lastStored m.before.session.view n)
    (hsus : ∀ n, statusOf m.after.session.view n = some .suspect →
      m.Moves n .suspect ∨ statusOf m.before.session.view n = some .suspect) :
    Tracked serve db (past ++ [m]) m.after.session.view := by
  refine ⟨hreg, fun n t => ?_, fun n hn => ?_⟩
  · rw [hlast, h.heard, lastHeard_unheard (hm n)]
  · rcases hsus n hn with hmoves | hbefore
    · exact Or.inl ⟨past, m, [], rfl, hmoves, by simp [Silent]⟩
    · exact (h.suspected n hbefore).imp_left fun hs => hs.concat (hm n)

lemma moved_iff_lost {delays : Delays} {now : Time} {view : Db} (hs : Scanned delays now db view) :
    Moved db view n .unavailable ↔ ∃ node ∈ db.node? n, Lost delays now node := by
  unfold Moved statusOf
  rw [hs.node?]
  cases hn : db.node? n with
  | none => simp
  | some node => simp [Lost, scannedNode, StorageNode.enter]

lemma Scanned.edge {delays : Delays} {now : Time} {view : Db} (hs : Scanned delays now db view) (n : String) :
    statusOf view n = statusOf db n ∨
      ∃ s s', statusOf db n = some s ∧ statusOf view n = some s' ∧ s' ∈ nodeStateTransitions s := by
  unfold statusOf
  rw [hs.node?]
  cases hn : db.node? n with
  | none => exact Or.inl rfl
  | some node =>
    rcases nextState_edge delays now node with h | h
    · exact Or.inl (congrArg some h)
    · exact Or.inr ⟨node.status, _, rfl, rfl, h⟩

lemma Scanned.givenUp_iff {delays : Delays} {now : Time} {view : Db} (hs : Scanned delays now db view)
    (h : Registered db) (r : Replica) : GivenUp delays now db db.nodes r ↔
      Moved db view r.nodeId .unavailable ∧ Committed db r ∧ r.status = .healthy := by
  unfold GivenUp
  rw [moved_iff_lost hs]
  refine and_congr_left fun _ => ⟨?_, ?_⟩
  · rintro ⟨node, hn, hid, hlost⟩
    exact ⟨node, hid ▸ Table.lookup_of_mem h.keys.distinct hn, hlost⟩
  · rintro ⟨node, hn, hlost⟩
    exact ⟨node, Table.lookup_mem hn, Table.lookup_key hn, hlost⟩

lemma Scanned.lastStored {delays : Delays} {now : Time} {view : Db} (hs : Scanned delays now db view) (n : String) :
    lastStored view n = lastStored db n := by
  unfold Health.lastStored
  rw [hs.node?]
  cases db.node? n <;> rfl

lemma lastStored_of {node : StorageNode} (hn : db.node? n = some node) (ht : node.lastHeartbeatAt = some t) :
    lastStored db n = some t := by
  rw [lastStored, hn]
  exact ht

lemma not_accepted_of_scan {now : Time} (ht : m.tick = .scan now) (n : String) (t : Time) :
    ¬Accepted serve m n t := by
  rintro ⟨payload, result, hc, -⟩
  rw [ht] at hc
  cases hc

lemma Tracked.scan {now : Time} (h : Tracked serve db past m.before.session.view) (ht : m.tick = .scan now)
    (hs : Scanned policy.delays now m.before.session.view m.after.session.view) :
    Tracked serve db (past ++ [m]) m.after.session.view := by
  refine h.unheard (not_accepted_of_scan ht) (hs.registered h.registered) hs.lastStored fun n hn => ?_
  by_cases hbefore : statusOf m.before.session.view n = some .suspect
  · exact Or.inr hbefore
  · exact Or.inl ⟨⟨now, ht⟩, hbefore, hn⟩

/-- A scan does no more than it may. -/
lemma Tracked.scan_sound {now : Time} (h : Tracked serve db past m.before.session.view) (ht : m.tick = .scan now)
    (hs : Scanned policy.delays now m.before.session.view m.after.session.view)
    (hdb : ∀ n, statusOf db n ≠ some .suspect) : Sound serve policy.delays db past m := by
  refine ⟨hs.edge, fun now' n he hmoves => ?_, fun now' n he hmoves => ?_, fun _ _ => ?_⟩
  · cases ht.symm.trans he
    obtain ⟨-, hbefore, hafter⟩ := hmoves
    unfold statusOf at hafter hbefore
    rw [hs.node?] at hafter
    obtain ⟨_, hrow, hsus⟩ := Option.map_eq_some_iff.mp hafter
    obtain ⟨node, hnode, rfl⟩ := Option.map_eq_some_iff.mp hrow
    rw [hnode] at hbefore
    obtain ⟨last, hlast, hlate⟩ := suspect_of_nextState hsus fun hc => hbefore (congrArg some hc)
    exact ⟨last, (h.heard n last).mp (lastStored_of hnode hlast), hlate⟩
  · cases ht.symm.trans he
    obtain ⟨node, hnode, hlost⟩ := (moved_iff_lost hs).mp hmoves.2
    obtain ⟨hstatus, last, hlast, hlate⟩ := hlost.silent
    have hsuspect : statusOf m.before.session.view n = some .suspect := by
      rw [statusOf, hnode]
      exact congrArg some hstatus
    exact ⟨⟨last, (h.heard n last).mp (lastStored_of hnode hlast), hlate⟩,
      (h.suspected n hsuspect).resolve_right (hdb n)⟩
  · rw [hs.replicas]
    exact List.map_congr_left fun r _ => by simp only [hs.givenUp_iff h.registered]

lemma beatenState_edge (state : NodeState) :
    beatenState state = state ∨ beatenState state ∈ nodeStateTransitions state := by
  cases state <;> decide

lemma beatenState_ne_suspect (state : NodeState) : beatenState state ≠ .suspect := by
  cases state <;> decide

lemma Beaten.node? {payload : HeartbeatPayload} {view : Db} (hb : Beaten payload db view) (n : String) :
    view.node? n = (db.node? n).map (fun node =>
      if node.nodeId = payload.nodeId then beatenNode payload node else node) := by
  rw [Db.node?, hb.nodes, Table.lookup_amend (f := beatenNode payload) fun _ => rfl]
  rfl

lemma Beaten.node?_of_ne {payload : HeartbeatPayload} {view : Db} (hb : Beaten payload db view)
    (hn : n ≠ payload.nodeId) : view.node? n = db.node? n := by
  rw [Db.node?, hb.nodes, Table.lookup_amend_ne (f := beatenNode payload) (fun _ => rfl) _ hn]
  rfl

lemma Beaten.edge {payload : HeartbeatPayload} {view : Db} (hb : Beaten payload db view) (n : String) :
    statusOf view n = statusOf db n ∨
      ∃ s s', statusOf db n = some s ∧ statusOf view n = some s' ∧ s' ∈ nodeStateTransitions s := by
  unfold statusOf
  rw [hb.node?]
  cases hn : db.node? n with
  | none => exact Or.inl rfl
  | some node =>
    by_cases hid : node.nodeId = payload.nodeId
    · simp only [Option.map_some, if_pos hid]
      rcases beatenState_edge node.status with h | h
      · exact Or.inl (congrArg some h)
      · exact Or.inr ⟨node.status, _, rfl, rfl, h⟩
    · simp only [Option.map_some, if_neg hid, true_or]

lemma Beaten.lastStored {payload : HeartbeatPayload} {view : Db} (hb : Beaten payload db view)
    (h : Accepts db payload) : lastStored view payload.nodeId = some payload.timestamp := by
  obtain ⟨node, hn, -⟩ := h
  have hn : db.node? payload.nodeId = some node := hn
  rw [Health.lastStored, hb.node?, hn, Option.map_some, if_pos (Table.lookup_key hn)]
  rfl

lemma Ingested.edge {payload : HeartbeatPayload} {r : Except Failure HeartbeatResult} {view : Db}
    (hi : Ingested payload db r view) (n : String) :
    statusOf view n = statusOf db n ∨
      ∃ s s', statusOf db n = some s ∧ statusOf view n = some s' ∧ s' ∈ nodeStateTransitions s := by
  rcases hi with ⟨-, -, hb⟩ | ⟨-, -, rfl⟩
  · exact hb.edge n
  · exact Or.inl rfl

lemma Tracked.heartbeat {payload : HeartbeatPayload} (h : Tracked serve db past m.before.session.view)
    (ht : m.tick = .heartbeat payload)
    (hi : Ingested payload m.before.session.view (exec serve (ingest payload) (resume m.before)).1
      m.after.session.view) : Tracked serve db (past ++ [m]) m.after.session.view := by
  rcases hi with ⟨haccepts, ⟨result, hresult, haccepted⟩, hb⟩ | ⟨-, hrefused, hsame⟩
  · have hown : Accepted serve m payload.nodeId payload.timestamp :=
      ⟨payload, result, ht, rfl, rfl, hresult, haccepted⟩
    have hother : ∀ n, n ≠ payload.nodeId → ∀ t, ¬Accepted serve m n t := by
      rintro n hn t ⟨payload', -, hc, rfl, -⟩
      cases ht.symm.trans hc
      exact hn rfl
    refine ⟨hb.registered h.registered, fun n t => ?_, fun n hn => ?_⟩
    · by_cases hid : n = payload.nodeId
      · subst hid
        rw [hb.lastStored haccepts, lastHeard_concat, Option.some.injEq]
        refine ⟨?_, ?_⟩
        · rintro rfl
          exact Or.inl hown
        · rintro (hacc | ⟨hno, -⟩)
          · exact hown.unique hacc
          · exact absurd hown (hno _)
      · rw [lastHeard_unheard (hother n hid), ← h.heard, lastStored, lastStored, hb.node?_of_ne hid]
    · by_cases hid : n = payload.nodeId
      · subst hid
        rw [statusOf, hb.node?, Option.map_map] at hn
        obtain ⟨old, hold, hstatus⟩ := Option.map_eq_some_iff.mp hn
        rw [Function.comp_apply, if_pos (Table.lookup_key hold)] at hstatus
        exact absurd hstatus (beatenState_ne_suspect old.status)
      · rw [statusOf, hb.node?_of_ne hid] at hn
        exact (h.suspected n hn).imp_left fun hs => hs.concat (hother n hid)
  · have hm : ∀ n t, ¬Accepted serve m n t := by
      rintro n t ⟨payload', result, hc, -, -, hresult, haccepted⟩
      cases ht.symm.trans hc
      rw [hrefused result hresult] at haccepted
      cases haccepted
    refine h.unheard hm ?_ (fun n => ?_) fun n hn => ?_
    · rw [hsame]
      exact h.registered
    · rw [hsame]
    · rw [hsame] at hn
      exact Or.inr hn

lemma ingest_run (serve : ∀ {β : Type}, Request β → ρ → β × ρ) (payload : HeartbeatPayload) {p : Watch ρ}
    (h : Registered p.session.view) : Ingested payload p.session.view (exec serve (ingest payload) p).1
      (exec serve (ingest payload) p).2.session.view := by
  have hwp := wp_ingest_exact payload h
  exact wp_sound (fun _ _ => trivial) hwp

lemma scan_run (serve : ∀ {β : Type}, Request β → ρ → β × ρ) (delays : Delays) {rf : ℕ} (hrf : 1 ≤ rf) (now : Time)
    {p : Watch ρ} (h : Registered p.session.view) :
    Scanned delays now p.session.view (exec serve (Health.scan delays rf now) p).2.session.view := by
  have hwp : wp any (fun _ q => Scanned delays now p.session.view q.session.view) (Health.scan delays rf now) p := by
    refine wp_mono (fun r q hq => ?_) (wp_scan_exact hrf h)
    cases r with
    | error e => exact hq.elim
    | ok _ => exact hq
  exact wp_sound (fun _ _ => trivial) hwp

lemma perform_ingest (serve : ∀ {β : Type}, Request β → ρ → β × ρ) (policy : Policy) (p : Watch ρ)
    (payload : HeartbeatPayload) :
    perform serve policy p (.ingest payload) = (exec serve (ingest payload) (resume p)).2 :=
  exec_unit serve (ingest payload) (resume p)

lemma perform_scan (serve : ∀ {β : Type}, Request β → ρ → β × ρ) (policy : Policy) (p : Watch ρ) (now : Time) :
    perform serve policy p (.scan now) =
      (exec serve (Health.scan policy.delays policy.replicationFactor now) (resume p)).2 :=
  exec_unit serve (Health.scan policy.delays policy.replicationFactor now) (resume p)

section Moments

variable (hm : m.after = perform serve policy m.before m.tick.step) (hreg : Registered m.before.session.view)
include hm hreg

lemma moment_ingested {payload : HeartbeatPayload} (ht : m.tick = .heartbeat payload) :
    Ingested payload m.before.session.view (exec serve (ingest payload) (resume m.before)).1
      m.after.session.view := by
  have hrun := ingest_run serve payload (p := resume m.before) hreg
  rwa [← perform_ingest serve policy, show Step.ingest payload = m.tick.step by rw [ht]; rfl, ← hm] at hrun

lemma moment_scanned (hrf : 1 ≤ policy.replicationFactor) {now : Time} (ht : m.tick = .scan now) :
    Scanned policy.delays now m.before.session.view m.after.session.view := by
  have hrun := scan_run serve policy.delays hrf now (p := resume m.before) hreg
  rwa [← perform_scan serve policy, show Step.scan now = m.tick.step by rw [ht]; rfl, ← hm] at hrun

end Moments

lemma Tracked.moment (h : Tracked serve db past m.before.session.view) (hrf : 1 ≤ policy.replicationFactor)
    (hm : m.after = perform serve policy m.before m.tick.step) :
    Tracked serve db (past ++ [m]) m.after.session.view := by
  cases ht : m.tick with
  | heartbeat payload => exact h.heartbeat ht (moment_ingested hm h.registered ht)
  | scan now => exact h.scan ht (moment_scanned hm h.registered hrf ht)

lemma Tracked.sound (h : Tracked serve db past m.before.session.view) (hrf : 1 ≤ policy.replicationFactor)
    (hm : m.after = perform serve policy m.before m.tick.step) (hdb : ∀ n, statusOf db n ≠ some .suspect) :
    Sound serve policy.delays db past m := by
  cases ht : m.tick with
  | heartbeat payload =>
    refine ⟨(moment_ingested hm h.registered ht).edge, fun _ _ hc => ?_, fun _ _ hc => ?_, fun _ hc => ?_⟩
    all_goals cases ht.symm.trans hc
  | scan now => exact h.scan_sound ht (moment_scanned hm h.registered hrf ht) hdb

lemma moments_sound {p : Watch ρ} {ticks : List Tick} {earlier later : List (Moment ρ)}
    (h : moments serve policy p ticks = earlier ++ m :: later) (hrf : 1 ≤ policy.replicationFactor)
    (hdb : ∀ n, statusOf db n ≠ some .suspect) (hp : Tracked serve db past p.session.view) :
    Sound serve policy.delays db (past ++ earlier) m := by
  induction earlier generalizing p ticks past with
  | nil =>
    cases ticks with
    | nil => cases h
    | cons tick ticks =>
      obtain ⟨rfl, -⟩ := List.cons.inj h
      rw [List.append_nil]
      exact Tracked.sound (m := Health.moment serve policy p tick) hp hrf rfl hdb
  | cons first earlier ih =>
    cases ticks with
    | nil => cases h
    | cons tick ticks =>
      obtain ⟨rfl, hrest⟩ := List.cons.inj h
      have hsound := ih hrest (Tracked.moment (m := Health.moment serve policy p tick) hp hrf rfl)
      rwa [List.append_assoc, List.singleton_append] at hsound

end Tracking

/-- Each call of a run of heartbeats and scans is sound with respect to the calls before it. -/
theorem failure_detection_sound (serve : ∀ {β : Type}, Request β → ρ → β × ρ) (policy : Policy)
    (hrf : 1 ≤ policy.replicationFactor) (db : Db) (w : ρ) (hdb : Registered db)
    (hstart : ∀ n ∈ db.nodes, n.status = .joining ∨ n.status = .healthy) (ticks : List Tick)
    (past : List (Moment ρ)) (m : Moment ρ) (future : List (Moment ρ))
    (hrun : moments serve policy (watch db w) ticks = past ++ m :: future) :
    Sound serve policy.delays db past m := by
  refine moments_sound hrun hrf (fun n hn => ?_) (Tracked.start hdb)
  obtain ⟨node, hrow, hstatus⟩ := Option.map_eq_some_iff.mp hn
  rcases hstart node (Table.lookup_mem hrow) with h | h
  · rw [h] at hstatus
    cases hstatus
  · rw [h] at hstatus
    cases hstatus

def newNodeDb : Db := { sampleDb with nodes := [{ lostNode with status := .joining, lastHeartbeatAt := none }] }

/-- The node is heard at 10, suspected at 25 and given up at 40. -/
theorem silent_node_given_up_soundly :
    let heard := moment Storage.serve samplePolicy (watch newNodeDb silentWorld) (.heartbeat (samplePayload 10))
    let suspected := moment Storage.serve samplePolicy heard.after (.scan 25)
    let lost := moment Storage.serve samplePolicy suspected.after (.scan 40)
    lost.Moves "a" .unavailable ∧ Sound Storage.serve samplePolicy.delays newNodeDb [heard, suspected] lost := by
  intro heard suspected lost
  refine ⟨⟨⟨40, rfl⟩, by decide +kernel⟩, ?_⟩
  exact failure_detection_sound Storage.serve samplePolicy (by decide) newNodeDb silentWorld
    ⟨⟨by decide, by decide⟩, by decide, by decide⟩ (by decide) [.heartbeat (samplePayload 10), .scan 25, .scan 40]
    [heard, suspected] lost [] rfl

end Vault.Health
