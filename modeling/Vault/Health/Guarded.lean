import Vault.Health.Gate
import Vault.Metadata.WellFormed

/-! The invariant of the runs: a node that awaits its reconciliation is `UNAVAILABLE` or
`RECOVERING`. Jobs that leave the node table alone keep it. -/

namespace Vault.Health

open Vault.Common Vault.Metadata Vault.Storage Vault.Lib Vault.Lib.Script Vault.Lib.Transaction

variable {ρ : Type}

def Held (db : Db) (n : String) : Prop :=
  statusOf db n = some .unavailable ∨ statusOf db n = some .recovering

lemma Held.ne_healthy {db : Db} {n : String} (h : Held db n) : statusOf db n ≠ some .healthy := by
  rcases h with h | h <;> rw [h] <;> decide

lemma Held.frame {db db' : Db} {n : String} (h : Held db n) (hn : db'.nodes = db.nodes) : Held db' n := by
  unfold Held statusOf Db.node? at *
  rwa [hn]

structure Guarded (p : Watch ρ) : Prop where
  keys : p.session.view.NodeKeys
  held : ∀ n, Awaiting n p.past → Held p.session.view n
  between : ReconciledBetween p.past

lemma Guarded.concat {p : Watch ρ} (h : Guarded p) {s : Session Db} (w : ρ) (hk : s.view.NodeKeys)
    (hh : ∀ n, Awaiting n p.past → Held s.view n) :
    Guarded (⟨s, w, p.past ++ [.state s w]⟩ : Watch ρ) where
  keys := hk
  held := by
    intro n hn
    rw [awaiting_concat] at hn
    rcases hn with hn | hn
    · exact hh n hn
    · exact Or.inl hn
  between := by
    apply reconciledBetween_concat h.between
    intro s' w' he n hn
    cases he
    exact (hh n hn).ne_healthy

lemma Guarded.look {p : Watch ρ} (h : Guarded p) : Guarded p.look := ⟨h.keys, h.held, h.between⟩

lemma Guarded.turn {p : Watch ρ} (h : Guarded p) (w : ρ) : Guarded (p.turn w) :=
  h.concat w h.keys h.held

lemma Guarded.resume {p : Watch ρ} (h : Guarded p) : Guarded (resume p) := ⟨h.keys, h.held, h.between⟩

lemma Guarded.remark {p : Watch ρ} (h : Guarded p) (n : Note) : Guarded (p.remark n) where
  keys := h.keys
  held := by
    intro m hm
    obtain ⟨n, complete⟩ := n
    rw [Point.remark, awaiting_concat] at hm
    exact h.held m hm.1
  between := by
    apply reconciledBetween_concat h.between
    intro s w he
    cases he

lemma Guarded.begin {α : Type} {p : Watch ρ} (h : Guarded p) {body : Metadata.Tx α}
    (hb : ∀ a t, body.run p.session.view = .ok (a, t) →
      t.NodeKeys ∧ ∀ n, Awaiting n p.past → Held t n) :
    Guarded (p.move (p.session.begin body).2) := by
  have hview : (p.session.begin body).2.view.NodeKeys ∧
      ∀ n, Awaiting n p.past → Held (p.session.begin body).2.view n := by
    rw [Session.begin_view]
    rcases atomic_cases body p.session.view with ⟨a, t, hr, ha⟩ | ⟨e, -, ha⟩
    · rw [ha]
      exact hb a t hr
    · rw [ha]
      exact ⟨h.keys, h.held⟩
  exact h.concat p.world hview.1 hview.2

/-- The invariant, with the node table still as it was. -/
def Steady (ns : List StorageNode) (p : Watch ρ) : Prop := Guarded p ∧ p.session.view.nodes = ns

abbrev any {β : Type} : Request β → ρ → β → ρ → Prop := fun _ _ _ _ => True

variable {ns : List StorageNode}

abbrev KeepsSteady (ρ : Type) (ns : List StorageNode) {α : Type} (x : Job α) : Prop :=
  Keeps (any (ρ := ρ)) (Steady ns) x

lemma Steady.look {p : Watch ρ} (h : Steady ns p) : Steady ns p.look := ⟨h.1.look, h.2⟩

lemma Steady.turn {p : Watch ρ} (h : Steady ns p) (w : ρ) : Steady ns (p.turn w) := ⟨h.1.turn w, h.2⟩

lemma keeps_query_steady : KeepsSteady ρ ns query := keeps_query fun _ => Steady.look

lemma keeps_request_steady {α : Type} (q : Request α) : KeepsSteady ρ ns (request q) :=
  keeps_request (fun _ w h => h.turn w) q

lemma Steady.move {p : Watch ρ} (h : Steady ns p) {s : Session Db} (hn : s.view.nodes = ns) :
    Steady ns (p.move s) := by
  have hs : s.view.nodes = p.session.view.nodes := hn.trans h.2.symm
  exact ⟨h.1.concat p.world (h.1.keys.frame hs) fun n hw => (h.1.held n hw).frame hs, hn⟩

lemma keeps_transaction_steady {α : Type} {body : Metadata.Tx α}
    (hb : ∀ db a t, body.run db = .ok (a, t) → t.nodes = db.nodes) :
    KeepsSteady ρ ns (transaction body) := by
  intro p hp
  refine wp_transaction.mpr (hp.move ?_)
  rw [Session.begin_view]
  rcases atomic_cases body p.session.view with ⟨a, t, hr, ha⟩ | ⟨e, -, ha⟩
  · rw [ha]
    exact (hb _ a t hr).trans hp.2
  · rw [ha]
    exact hp.2

lemma keeps_save_steady {f : Db → Db} (hf : ∀ db, (f db).nodes = db.nodes) : KeepsSteady ρ ns (save f) :=
  fun p hp => wp_save.mpr (hp.move ((hf p.session.view).trans hp.2))

lemma keeps_setReplicaState (i : UUID) (state : ReplicaState) :
    KeepsSteady ρ ns (transaction (setReplicaState (.value i) (.value state))) := by
  apply keeps_transaction_steady
  intro db r t h
  obtain ⟨_, -, -, ⟨-, rfl⟩ | rfl⟩ := setReplicaState_row h <;> rfl

lemma keeps_recordVerified (now : Time) (i : UUID) (c : Checksum) (z : ℕ) :
    KeepsSteady ρ ns (transaction (recordVerified now i c z)) := by
  apply keeps_transaction_steady
  intro db r t h
  obtain ⟨_, _, -, -, -, -, -, -, rfl⟩ := recordVerified_ok h
  rfl

lemma keeps_markVerified (now : Time) (i : UUID) (c : Checksum) (z : ℕ) :
    KeepsSteady ρ ns (transaction (markVerified Replica.status now i c z)) := by
  apply keeps_transaction_steady
  intro db r t h
  obtain ⟨_, _, -, -, -, -, -, -, rfl⟩ := markVerified_ok h
  rfl

lemma keeps_schedule (i : UUID) (rf : ℤ) (reason : Arg String) (preferred : Option Replica) :
    KeepsSteady ρ ns (Repair.schedule i rf reason preferred) := by
  refine keeps_bind keeps_query_steady fun db => ?_
  split
  · exact keeps_raise _
  · exact keeps_pure _
  · exact keeps_pure _
  · exact keeps_bind (keeps_save_steady fun _ => rfl) fun _ => keeps_pure _

end Vault.Health
