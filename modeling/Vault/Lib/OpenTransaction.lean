import Vault.Lib.Rules

/-! While a transaction stays open nothing becomes durable: whatever the program asks for and writes, every state
that it leaves behind has the durable part that the transaction began with. Only a commit ends this. -/

namespace Vault.Lib

open Vault.Lib.Transaction Vault.Lib.Script

variable {σ ε N ρ α β : Type} {Q : Type → Type} {answers : ∀ {β : Type}, Q β → ρ → β → ρ → Prop} {d : σ}

/-- No state that the run has left behind has anything else than `d` in its durable part. -/
def Untouched (d : σ) (p : Point σ ρ N) : Prop := ∀ s w, Event.state s w ∈ p.past → s.durable = d

structure Open (d : σ) (p : Point σ ρ N) : Prop where
  durable : p.session.durable = d
  inTransaction : p.session.inTransaction = true
  past : Untouched d p

lemma untouched_concat {past : List (Event σ ρ N)} {e : Event σ ρ N}
    (h : ∀ s w, Event.state s w ∈ past → s.durable = d) (he : ∀ s w, e = .state s w → s.durable = d) :
    ∀ s w, Event.state s w ∈ past ++ [e] → s.durable = d := by
  intro s w hmem
  rcases List.mem_append.mp hmem with hmem | hmem
  · exact h s w hmem
  · exact he s w (List.mem_singleton.mp hmem).symm

lemma open_start_look (s : σ) (w : ρ) : Open s (Point.start s w : Point σ ρ N).look :=
  ⟨rfl, rfl, fun _ _ h => by cases h⟩

lemma Open.look {p : Point σ ρ N} (h : Open d p) : Open d p.look := ⟨h.durable, rfl, h.past⟩

lemma Open.turn {p : Point σ ρ N} (h : Open d p) (w : ρ) : Open d (p.turn w) where
  durable := h.durable
  inTransaction := h.inTransaction
  past := by
    apply untouched_concat h.past
    rintro s w' hs
    cases hs
    exact h.durable

lemma Open.remark {p : Point σ ρ N} (h : Open d p) (n : N) : Open d (p.remark n) where
  durable := h.durable
  inTransaction := h.inTransaction
  past := untouched_concat h.past fun s w hs => by cases hs

section Rules

variable [DecidableEq σ]

lemma Open.move {p : Point σ ρ N} (h : Open d p) (body : Tx σ ε β) : Open d (p.move (p.session.begin body).2) := by
  have hopen := h.inTransaction
  have hsession : (p.session.begin body).2.durable = d ∧ (p.session.begin body).2.inTransaction = true := by
    unfold Session.begin
    dsimp only
    rw [if_pos hopen]
    exact ⟨h.durable, hopen⟩
  refine ⟨hsession.1, hsession.2, ?_⟩
  apply untouched_concat h.past
  rintro s w hs
  cases hs
  exact hsession.1

lemma keeps_transaction_open (body : Tx σ ε α) : Keeps answers (Open d) (transaction body : Script σ ε Q N α) :=
  fun _ hp => wp_transaction.mpr (hp.move body)

lemma keeps_query_open : Keeps answers (Open d) (query : Script σ ε Q N σ) := keeps_query fun _ => Open.look

lemma keeps_request_open (q : Q α) : Keeps answers (Open d) (request q : Script σ ε Q N α) :=
  keeps_request (fun _ w hp => hp.turn w) q

lemma keeps_remark_open (n : N) : Keeps answers (Open d) (remark n : Script σ ε Q N Unit) :=
  fun _ hp => wp_remark.mpr (hp.remark n)

lemma keeps_lift_open (r : Except ε α) : Keeps answers (Open d) (lift r : Script σ ε Q N α) := keeps_done r

lemma keeps_ensure_open {x : Script σ ε Q N α} {y : Script σ ε Q N Unit} (hx : Keeps answers (Open d) x)
    (hy : Keeps answers (Open d) y) : Keeps answers (Open d) (ensure x y) :=
  keeps_bind (keeps_attempt hx) fun _ => keeps_bind hy fun _ => keeps_done _

end Rules

end Vault.Lib
