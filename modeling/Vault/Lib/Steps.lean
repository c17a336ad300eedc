import Vault.Lib.Script

/-! Programs taken one step at a time, whatever they read and however they are answered: a query may see any
state, a transaction end in any way. A whole run of a program is one of its paths. -/

namespace Vault.Lib.Script

open Vault.Lib.Transaction

variable {σ ε N ρ α β γ : Type} {Q : Type → Type}

/-- One step, and whether it is a request of the kind that is counted. -/
inductive Step (counted : ∀ {β : Type}, Q β → Bool) : Script σ ε Q N α → Bool → Script σ ε Q N α → Prop
  | look (k : σ → Script σ ε Q N α) (s : σ) : Step counted (.look k) false (k s)
  | tx {β : Type} (body : Tx σ ε β) (k : Except ε β → Script σ ε Q N α) (r : Except ε β) :
      Step counted (.tx body k) false (k r)
  | commit (f : σ → σ) (k : Script σ ε Q N α) : Step counted (.commit f k) false k
  | ask {β : Type} (q : Q β) (k : β → Script σ ε Q N α) (b : β) : Step counted (.ask q k) (counted q) (k b)
  | note (n : N) (k : Script σ ε Q N α) : Step counted (.note n k) false k

theorem exec_steps [DecidableEq σ] (counted : ∀ {β : Type}, Q β → Bool) (serve : ∀ {β : Type}, Q β → ρ → β × ρ)
    (x : Script σ ε Q N α) (p : Point σ ρ N) :
    Relation.ReflTransGen (fun y z => ∃ c, Step counted y c z) x (done (exec serve x p).1) := by
  induction x generalizing p with
  | done r => exact .refl
  | look k ih => exact .head ⟨_, .look k p.session.view⟩ (ih _ _)
  | tx body k ih => exact .head ⟨_, .tx body k (p.session.begin body).1⟩ (ih _ _)
  | commit f k ih => exact .head ⟨_, .commit f k⟩ (ih _)
  | ask q k ih => exact .head ⟨_, .ask q k (serve q p.world).1⟩ (ih _ _)
  | note n k ih => exact .head ⟨_, .note n k⟩ (ih _)

lemma bind_assoc (x : Script σ ε Q N α) (f : α → Script σ ε Q N β) (g : β → Script σ ε Q N γ) :
    x >>= f >>= g = x >>= fun a => f a >>= g := by
  simp only [bind_def]
  induction x with
  | done r => cases r <;> rfl
  | look k ih => exact congrArg look (funext ih)
  | tx body k ih => exact congrArg (tx body) (funext ih)
  | commit h k ih => exact congrArg (commit h) ih
  | ask q k ih => exact congrArg (ask q) (funext ih)
  | note n k ih => exact congrArg (note n) ih

end Vault.Lib.Script
