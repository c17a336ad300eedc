import Vault.Health.FailureDetector
import Vault.Lib.Rules
import Vault.Metadata.Effects

/-! Runs of heartbeats and scans, and what they must respect: between a state in which a node is
`UNAVAILABLE` and a later one in which it is `HEALTHY`, a complete reconciliation of the node
ends. -/

namespace Vault.Health

open Vault.Common Vault.Metadata Vault.Storage Vault.Lib Vault.Lib.Script Vault.Lib.Transaction

inductive Step
  | ingest (payload : HeartbeatPayload)
  | ingestAndRecover (payload : HeartbeatPayload)
  | scan (now : Time)
  deriving DecidableEq, Repr

structure Policy where
  delays : Delays
  replicationFactor : ℕ

def Step.job (policy : Policy) : Step → Job Unit
  | .ingest payload => do
    let _ ← Health.ingest payload
    pure ()
  | .ingestAndRecover payload => do
    let _ ← Health.ingestAndRecover policy.replicationFactor payload
    pure ()
  | .scan now => do
    let _ ← Health.scan policy.delays policy.replicationFactor now
    pure ()

variable {ρ : Type}

abbrev Watch (ρ : Type) := Point Db ρ Note

def watch (db : Db) (w : ρ) : Watch ρ := ⟨Session.fresh db, w, [.state (Session.fresh db) w]⟩

/-- The caller commits what a call did, and the next call starts in a session of its own. -/
def resume (p : Watch ρ) : Watch ρ := { p with session := Session.fresh p.session.view }

def perform (serve : ∀ {β : Type}, Request β → ρ → β × ρ) (policy : Policy) (p : Watch ρ) (step : Step) :
    Watch ρ :=
  (exec serve (step.job policy) (resume p)).2

def performAll (serve : ∀ {β : Type}, Request β → ρ → β × ρ) (policy : Policy) :
    List Step → Watch ρ → Watch ρ
  | [], p => p
  | step :: steps, p => performAll serve policy steps (perform serve policy p step)

def statusOf (db : Db) (nodeId : String) : Option NodeState := (db.node? nodeId).map StorageNode.status

def ReconciledBetween (past : List (Event Db ρ Note)) : Prop :=
  ∀ n pre s w mid s' w' post, past = pre ++ .state s w :: (mid ++ .state s' w' :: post) →
    statusOf s.view n = some .unavailable → statusOf s'.view n = some .healthy →
    .note (.reconciled n true) ∈ mid

/-- What one event does to the question whether the node was unavailable after its last complete
reconciliation. -/
def awaits (n : String) (b : Prop) : Event Db ρ Note → Prop
  | .state s _ => b ∨ statusOf s.view n = some .unavailable
  | .note (.reconciled m complete) => b ∧ ¬(m = n ∧ complete = true)

def Awaiting (n : String) (past : List (Event Db ρ Note)) : Prop := past.foldl (awaits n) False

lemma awaiting_concat (n : String) (past : List (Event Db ρ Note)) (e : Event Db ρ Note) :
    Awaiting n (past ++ [e]) = awaits n (Awaiting n past) e := by
  simp [Awaiting]

lemma awaiting_append_of_not_mem {n : String} {past mid : List (Event Db ρ Note)}
    (h : Awaiting n past) (hmid : .note (.reconciled n true) ∉ mid) : Awaiting n (past ++ mid) := by
  induction mid using List.reverseRecOn with
  | nil => simpa using h
  | append_singleton mid e ih =>
    have hnot : .note (.reconciled n true) ∉ mid ∧ .note (.reconciled n true) ≠ e := by
      simpa [not_or] using hmid
    have hawait := ih hnot.1
    rw [← List.append_assoc, awaiting_concat]
    cases e with
    | state s w => exact Or.inl hawait
    | note m =>
      obtain ⟨m, complete⟩ := m
      refine ⟨hawait, ?_⟩
      rintro ⟨rfl, rfl⟩
      exact hnot.2 rfl

lemma reconciledBetween_concat {past : List (Event Db ρ Note)} (h : ReconciledBetween past)
    {e : Event Db ρ Note}
    (he : ∀ s w, e = .state s w → ∀ n, Awaiting n past → statusOf s.view n ≠ some .healthy) :
    ReconciledBetween (past ++ [e]) := by
  intro n pre s w mid s' w' post heq hu hh
  by_contra hmid
  rcases List.eq_nil_or_concat post with rfl | ⟨post, e', rfl⟩
  · rw [← List.cons_append, ← List.append_assoc] at heq
    obtain ⟨hpast, hlast⟩ := List.append_inj' heq rfl
    have hstart : Awaiting n (pre ++ [.state s w]) := by
      rw [awaiting_concat]
      exact Or.inr hu
    have hawait : Awaiting n past := by
      rw [hpast, ← List.singleton_append, ← List.append_assoc]
      exact awaiting_append_of_not_mem hstart hmid
    exact he s' w' (List.singleton_inj.mp hlast) n hawait hh
  · have hpast : past = pre ++ .state s w :: (mid ++ .state s' w' :: post) := by
      have heq' : past ++ [e] = (pre ++ .state s w :: (mid ++ .state s' w' :: post)) ++ [e'] := by
        simpa using heq
      exact (List.append_inj' heq' rfl).1
    exact hmid (h n pre s w mid s' w' post hpast hu hh)

end Vault.Health
