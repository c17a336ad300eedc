import Mathlib.Tactic

/-! Runs of a state machine: what holds at first and is kept by each step holds after every run, and
what is kept by the steps that meet a condition holds after every run whose steps all meet it. -/

namespace Vault.Lib.Runs

variable {σ : Type} {τ : Type*} (step : σ → τ → σ)

def run (s : σ) (actions : List τ) : σ := actions.foldl step s

/-- Each step of the run meets the condition in the state before it. -/
def Along (P : σ → τ → Prop) : σ → List τ → Prop
  | _, [] => True
  | s, a :: actions => P s a ∧ Along P (step s a) actions

instance decidableAlong (P : σ → τ → Prop) [∀ s a, Decidable (P s a)] :
    ∀ (s : σ) (actions : List τ), Decidable (Along step P s actions)
  | _, [] => .isTrue trivial
  | s, a :: actions =>
    have := decidableAlong P (step s a) actions
    inferInstanceAs (Decidable (P s a ∧ Along step P (step s a) actions))

def replies {ρ : Type} (reply : σ → τ → ρ) : σ → List τ → List ρ
  | _, [] => []
  | s, a :: actions => reply s a :: replies reply (step s a) actions

variable {step} {I : σ → Prop} {P : σ → τ → Prop} {s : σ} {actions : List τ}

lemma run_cons (s : σ) (a : τ) (actions : List τ) : run step s (a :: actions) = run step (step s a) actions :=
  rfl

lemma run_append (s : σ) (as bs : List τ) : run step s (as ++ bs) = run step (run step s as) bs :=
  List.foldl_append

lemma run_along (hs : ∀ s a, P s a → I s → I (step s a)) (hi : I s) (h : Along step P s actions) :
    I (run step s actions) := by
  induction actions generalizing s with
  | nil => exact hi
  | cons a actions ih => exact ih (hs s a h.1 hi) h.2

lemma along_true (s : σ) (actions : List τ) : Along step (fun _ _ => True) s actions := by
  induction actions generalizing s with
  | nil => trivial
  | cons a actions ih => exact ⟨trivial, ih _⟩

lemma run_invariant (hs : ∀ s a, I s → I (step s a)) (hi : I s) (actions : List τ) :
    I (run step s actions) :=
  run_along (fun s a _ => hs s a) hi (along_true s actions)

lemma along_of_not_mem {ρ : Type} {reply : σ → τ → ρ} {r : ρ} (h : r ∉ replies step reply s actions) :
    Along step (fun s a => reply s a ≠ r) s actions := by
  induction actions generalizing s with
  | nil => trivial
  | cons a actions ih =>
    rw [replies, List.mem_cons, not_or] at h
    exact ⟨Ne.symm h.1, ih h.2⟩

end Vault.Lib.Runs
