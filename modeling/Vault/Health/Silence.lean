import Vault.Health.Soundness

/-! A node that falls silent. The detector measures silence from the timestamp that the node itself put on its
last accepted heartbeat, so two scans find the node out exactly when that timestamp lies `suspect_after` or
more before one of them; a timestamp ahead of both hides the node. -/

namespace Vault.Health

open Vault.Common Vault.Metadata Vault.Storage Vault.Lib Vault.Lib.Script Vault.Lib.Transaction

variable {ρ : Type} {serve : ∀ {β : Type}, Request β → ρ → β × ρ} {policy : Policy} {db : Db}

lemma Tracked.run {past : List (Moment ρ)} {p : Watch ρ} (h : Tracked serve db past p.session.view)
    (hrf : 1 ≤ policy.replicationFactor) (ticks : List Tick) :
    Tracked serve db (past ++ moments serve policy p ticks)
      (performAll serve policy (ticks.map Tick.step) p).session.view := by
  induction ticks generalizing past p with
  | nil =>
    rw [moments, List.append_nil]
    exact h
  | cons tick ticks ih =>
    have hnext := Tracked.moment (m := Health.moment serve policy p tick) h hrf rfl
    have hrest := ih hnext
    rwa [List.append_assoc, List.singleton_append] at hrest

section TwoScans

variable {delays : Delays} {now : Time} {view : Db} {n : String}

/-- A scan leaves a healthy node healthy exactly when it was heard, by its own clock, a short while ago. -/
lemma Scanned.healthy_iff (hs : Scanned delays now db view) (hn : statusOf db n = some .healthy) :
    statusOf view n = some .healthy ↔ ∀ last ∈ Health.lastStored db n, now - last < delays.suspectAfter := by
  unfold statusOf Health.lastStored at *
  rw [hs.node?]
  obtain ⟨node, hrow, hstatus⟩ := Option.map_eq_some_iff.mp hn
  rw [hrow, Option.map_some, Option.map_some, Option.bind_some, Option.some.injEq]
  simp only [scannedNode, StorageNode.enter, nextState, hstatus]
  cases hlast : node.lastHeartbeatAt with
  | none => simp
  | some last =>
    by_cases hlate : delays.suspectAfter ≤ now - last
    · simp [hlate]
    · simpa [hlate] using lt_of_not_ge hlate

lemma Scanned.not_healthy (hs : Scanned delays now db view) (hn : statusOf db n = some .suspect) :
    statusOf view n ≠ some .healthy := by
  unfold statusOf at *
  rw [hs.node?]
  obtain ⟨node, hrow, hstatus⟩ := Option.map_eq_some_iff.mp hn
  rw [hrow, Option.map_some, Option.map_some, Ne, Option.some.injEq]
  simp only [scannedNode, StorageNode.enter, nextState, hstatus]
  cases node.lastHeartbeatAt with
  | none => simp
  | some last => by_cases hlate : delays.unavailableAfter ≤ now - last <;> simp [hlate]

/-- A scan moves a healthy node to `SUSPECT` or not at all. -/
lemma Scanned.suspect_of_healthy (hs : Scanned delays now db view) (hn : statusOf db n = some .healthy)
    (hne : statusOf view n ≠ some .healthy) : statusOf view n = some .suspect := by
  unfold statusOf at *
  rw [hs.node?] at hne ⊢
  obtain ⟨node, hrow, hstatus⟩ := Option.map_eq_some_iff.mp hn
  rw [hrow, Option.map_some, Option.map_some] at hne ⊢
  simp only [scannedNode, StorageNode.enter, nextState, hstatus, ne_eq, Option.some.injEq] at hne ⊢
  cases hlast : node.lastHeartbeatAt with
  | none => simp [hlast] at hne
  | some last =>
    by_cases hlate : delays.suspectAfter ≤ now - last
    · simp [hlate]
    · simp [hlast, hlate] at hne

variable {now' : Time} {view' : Db}

lemma two_scans_iff (hs : Scanned delays now db view) (hs' : Scanned delays now' view view')
    (hn : statusOf db n = some .healthy) :
    statusOf view' n ≠ some .healthy ↔
      ∃ last ∈ lastStored db n, delays.suspectAfter ≤ now - last ∨ delays.suspectAfter ≤ now' - last := by
  by_cases hfirst : statusOf view n = some .healthy
  · have hearly := (hs.healthy_iff hn).mp hfirst
    rw [Ne, hs'.healthy_iff hfirst, hs.lastStored]
    push Not
    refine exists_congr fun last => and_congr_right fun hlast => ?_
    exact (or_iff_right (not_le.mpr (hearly last hlast))).symm
  · rw [hs.healthy_iff hn] at hfirst
    have hlate := hfirst
    push Not at hlate
    obtain ⟨last, hlast, hlate⟩ := hlate
    rw [← hs.healthy_iff hn] at hfirst
    exact iff_of_true (hs'.not_healthy (hs.suspect_of_healthy hn hfirst)) ⟨last, hlast, Or.inl hlate⟩

end TwoScans

lemma performAll_append (serve : ∀ {β : Type}, Request β → ρ → β × ρ) (policy : Policy) (steps steps' : List Step)
    (p : Watch ρ) :
    performAll serve policy (steps ++ steps') p = performAll serve policy steps' (performAll serve policy steps p) := by
  induction steps generalizing p with
  | nil => rfl
  | cons step steps ih => exact ih _

/-- The tables after a run from `db`. -/
def viewAfter (serve : ∀ {β : Type}, Request β → ρ → β × ρ) (policy : Policy) (db : Db) (w : ρ) (ticks : List Tick) :
    Db :=
  (performAll serve policy (ticks.map Tick.step) (watch db w)).session.view

lemma viewAfter_scan (hrf : 1 ≤ policy.replicationFactor) {w : ρ} {ticks : List Tick} (now : Time)
    (h : Registered (viewAfter serve policy db w ticks)) :
    Scanned policy.delays now (viewAfter serve policy db w ticks) (viewAfter serve policy db w (ticks ++ [.scan now])) := by
  unfold viewAfter at h ⊢
  rw [List.map_append, performAll_append]
  generalize performAll serve policy (ticks.map Tick.step) (watch db w) = p at h ⊢
  exact moment_scanned (m := moment serve policy p (.scan now)) rfl h hrf rfl

/-- Two scans after a run of heartbeats and scans find a healthy node out exactly when the last accepted
heartbeat of the run lies `suspect_after` before one of them, which is so whenever it is not stamped later than
some `t` and both scans come `unavailable_after` after `t`. -/
theorem silent_node_detected_iff (serve : ∀ {β : Type}, Request β → ρ → β × ρ) (policy : Policy)
    (hrf : 1 ≤ policy.replicationFactor) (db : Db) (w : ρ) (hdb : Registered db) (ticks : List Tick) (n : String)
    (hn : statusOf (viewAfter serve policy db w ticks) n = some .healthy) (now now' : Time) :
    (statusOf (viewAfter serve policy db w (ticks ++ [.scan now] ++ [.scan now'])) n ≠ some .healthy ↔
      ∃ last, LastHeard serve db (moments serve policy (watch db w) ticks) n last ∧
        (policy.delays.suspectAfter ≤ now - last ∨ policy.delays.suspectAfter ≤ now' - last)) ∧
    ∀ t last, LastHeard serve db (moments serve policy (watch db w) ticks) n last → last ≤ t →
      t + policy.delays.unavailableAfter ≤ now → t + policy.delays.unavailableAfter ≤ now' →
      statusOf (viewAfter serve policy db w (ticks ++ [.scan now] ++ [.scan now'])) n ≠ some .healthy := by
  have htracked : Tracked serve db (moments serve policy (watch db w) ticks) (viewAfter serve policy db w ticks) :=
    Tracked.run (p := watch db w) (Tracked.start hdb) hrf ticks
  have hfirst := viewAfter_scan hrf now htracked.registered
  have hsecond := viewAfter_scan hrf now' (hfirst.registered htracked.registered)
  have hiff := two_scans_iff hfirst hsecond hn
  simp only [Option.mem_def, htracked.heard] at hiff
  refine ⟨hiff, fun t last hlast hle hnow _ => hiff.mpr ⟨last, hlast, Or.inl ?_⟩⟩
  have hdelays := policy.delays.suspectAfter_lt
  linarith

/-- Heard at 0 by its own clock, the node is found out by scans at 30 and 31. -/
theorem punctual_node_detected :
    statusOf (viewAfter Storage.serve samplePolicy newNodeDb silentWorld
        ([.heartbeat (samplePayload 0)] ++ [.scan 30] ++ [.scan 31])) "a" ≠ some .healthy := by
  refine (silent_node_detected_iff Storage.serve samplePolicy (by decide) newNodeDb silentWorld
    ⟨⟨by decide, by decide⟩, by decide, by decide⟩ [.heartbeat (samplePayload 0)] "a" (by decide +kernel) 30 31).2 0 0
    ?_ (by decide) (by decide) (by decide)
  refine Or.inl ⟨[], _, [], rfl, ⟨samplePayload 0, _, rfl, rfl, rfl, rfl, ?_⟩, by simp [Silent]⟩
  decide +kernel

/-- A heartbeat stamped 1000, received at 0, hides the node from the scans at 30 and 31. -/
theorem node_ahead_of_time_not_detected :
    ∃ t now now' : Time, t + samplePolicy.delays.unavailableAfter ≤ now ∧
      t + samplePolicy.delays.unavailableAfter ≤ now' ∧
      statusOf (viewAfter Storage.serve samplePolicy newNodeDb silentWorld [.heartbeat (samplePayload 1000)]) "a" =
        some .healthy ∧
      statusOf (viewAfter Storage.serve samplePolicy newNodeDb silentWorld
        ([.heartbeat (samplePayload 1000)] ++ [.scan now] ++ [.scan now'])) "a" = some .healthy := by
  refine ⟨0, 30, 31, by decide, by decide, by decide +kernel, by decide +kernel⟩

end Vault.Health
