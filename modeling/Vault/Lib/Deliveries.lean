import Vault.Lib.Attempts

/-! A server behind a network that may lose a request before the server has acted on it, or the answer after. Whoever
sends sees a failure in both cases. -/

namespace Vault.Lib

inductive Delivery (ω : Type)
  | lost (failure : ω)
  | unheard (failure : ω)
  | answered
  deriving DecidableEq, Repr

namespace Delivery

variable {σ ρ ω : Type}

def deliver (act : σ → σ × ρ) (s : σ) : Delivery ω → σ × (ω ⊕ ρ)
  | .lost failure => (s, .inl failure)
  | .unheard failure => ((act s).1, .inl failure)
  | .answered => ((act s).1, .inr (act s).2)

/-- The state of the server when `n` requests have been sent. -/
def after (act : σ → σ × ρ) (s : σ) (ds : ℕ → Delivery ω) : ℕ → σ
  | 0 => s
  | n + 1 => ((ds n).deliver act (after act s ds n)).1

def outcome (act : σ → σ × ρ) (s : σ) (ds : ℕ → Delivery ω) (n : ℕ) : ω ⊕ ρ :=
  ((ds n).deliver act (after act s ds n)).2

variable {act : σ → σ × ρ} {s : σ} {ds : ℕ → Delivery ω}

lemma after_of_invariant {P : σ → Prop} (hs : P s) (hact : ∀ t, P t → P (act t).1) (n : ℕ) : P (after act s ds n) := by
  induction n with
  | zero => exact hs
  | succ n ih =>
    rw [after]
    cases ds n with
    | lost _ => exact ih
    | unheard _ => exact hact _ ih
    | answered => exact hact _ ih

/-- An answer shows the server in the state in which the request met it. -/
lemma outcome_answer {n : ℕ} {r : ρ} (h : outcome act s ds n = .inr r) :
    (act (after act s ds n)).2 = r ∧ after act s ds (n + 1) = (act (after act s ds n)).1 := by
  rw [outcome] at h
  rw [after]
  cases hd : ds n with
  | lost _ =>
    rw [hd] at h
    cases h
  | unheard _ =>
    rw [hd] at h
    cases h
  | answered =>
    rw [hd] at h
    cases h
    exact ⟨rfl, rfl⟩

end Delivery

/-- The last outcome taken has decided the loop. -/
lemma attemptLoop_decided {τ α : Type} (body : ℕ → τ → Option α) (exhausted : α) (outcomes : ℕ → τ)
    (attempts : List ℕ) (taken : ℕ) :
    (attemptLoop body exhausted outcomes attempts taken).1 = exhausted ∨
      ∃ a attempt n, attemptLoop body exhausted outcomes attempts taken = (a, n + 1) ∧
        body attempt (outcomes n) = some a := by
  induction attempts generalizing taken with
  | nil => exact Or.inl rfl
  | cons attempt rest ih =>
    cases hb : body attempt (outcomes taken) with
    | some a => exact Or.inr ⟨a, attempt, taken, attemptLoop_cons_some hb, hb⟩
    | none =>
      rw [attemptLoop_cons_none hb]
      exact ih (taken + 1)

end Vault.Lib
