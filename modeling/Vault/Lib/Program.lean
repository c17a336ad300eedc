import Vault.Lib.Transaction

/-! Programs with exceptions over a state: a raised error keeps what was done before it, and a
handler runs on the state that the error left. -/

namespace Vault.Lib.Program

open Vault.Lib.Transaction

variable {σ ε α β : Type}

def Prog (σ ε α : Type) : Type := σ → Except ε α × σ

namespace Prog

def run (x : Prog σ ε α) (s : σ) : Except ε α × σ := x s

instance : Monad (Prog σ ε) where
  pure a := fun s => (.ok a, s)
  bind x f := fun s =>
    match x s with
    | (.ok a, t) => f a t
    | (.error e, t) => (.error e, t)

def raise (e : ε) : Prog σ ε α := fun s => (.error e, s)

def handle (x : Prog σ ε α) (h : ε → Prog σ ε α) : Prog σ ε α := fun s =>
  match x s with
  | (.ok a, t) => (.ok a, t)
  | (.error e, t) => h e t

def require (p : Prop) [Decidable p] (e : ε) : Prog σ ε Unit := if p then pure () else raise e

def demand : Option α → ε → Prog σ ε α
  | some a, _ => pure a
  | none, e => raise e

def ofTx (body : Tx σ ε α) : Prog σ ε α := atomic body

lemma ofTx_cases (body : Tx σ ε α) (s : σ) :
    (∃ a t, body.run s = .ok (a, t) ∧ (ofTx body).run s = (.ok a, t)) ∨
      ∃ e, body.run s = .error e ∧ (ofTx body).run s = (.error e, s) :=
  atomic_cases body s

lemma ofTx_ok {body : Tx σ ε α} {s t : σ} {a : α} (h : body.run s = .ok (a, t)) :
    (ofTx body).run s = (.ok a, t) := by
  simp [run, ofTx, atomic, h]

lemma run_bind (x : Prog σ ε α) (f : α → Prog σ ε β) (s : σ) :
    (x >>= f).run s =
      match x.run s with
      | (.ok a, t) => (f a).run t
      | (.error e, t) => (.error e, t) := rfl

def Relates (R : σ → σ → Prop) (x : Prog σ ε α) : Prop := ∀ s, R s (x.run s).2

variable {R : σ → σ → Prop}

lemma relates_pure (hr : ∀ s, R s s) (a : α) : Relates R (pure a : Prog σ ε α) := hr

lemma relates_raise (hr : ∀ s, R s s) (e : ε) : Relates R (raise e : Prog σ ε α) := hr

lemma relates_ofTx (hr : ∀ s, R s s) {body : Tx σ ε α}
    (h : ∀ s a t, body.run s = .ok (a, t) → R s t) : Relates R (ofTx body) := by
  intro s
  rcases ofTx_cases body s with ⟨a, t, hb, he⟩ | ⟨e, -, he⟩
  · rw [he]
    exact h s a t hb
  · rw [he]
    exact hr s

lemma relates_bind (ht : ∀ a b c, R a b → R b c → R a c) {x : Prog σ ε α} {f : α → Prog σ ε β}
    (hx : Relates R x) (hf : ∀ a, Relates R (f a)) : Relates R (x >>= f) := by
  intro s
  have h := hx s
  rw [run_bind]
  split
  · next a t he =>
    rw [he] at h
    exact ht _ _ _ h (hf a t)
  · next e t he =>
    rw [he] at h
    exact h

end Prog

end Vault.Lib.Program
