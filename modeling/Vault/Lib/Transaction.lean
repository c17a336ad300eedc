import Mathlib.Tactic

/-! Transaction bodies: they end with a result and a new state, or with an error and no state.
Run atomically, a body that ends with an error rolls the state back. -/

namespace Vault.Lib.Transaction

variable {σ ε α β : Type}

def Tx (σ ε α : Type) : Type := σ → Except ε (α × σ)

namespace Tx

def run (x : Tx σ ε α) (s : σ) : Except ε (α × σ) := x s

instance : Monad (Tx σ ε) where
  pure a := fun s => .ok (a, s)
  bind x f := fun s =>
    match x s with
    | .ok (a, t) => f a t
    | .error e => .error e

def raise (e : ε) : Tx σ ε α := fun _ => .error e

def read : Tx σ ε σ := fun s => .ok (s, s)

def write (f : σ → σ) : Tx σ ε Unit := fun s => .ok ((), f s)

def require (p : Prop) [Decidable p] (e : ε) : Tx σ ε Unit := if p then pure () else raise e

def demand : Option α → ε → Tx σ ε α
  | some a, _ => pure a
  | none, e => raise e

def check : Except ε α → Tx σ ε α
  | .ok a => pure a
  | .error e => raise e

@[simp] lemma run_bind {x : Tx σ ε α} {f : α → Tx σ ε β} {s : σ} {r : β × σ} :
    (x >>= f).run s = .ok r ↔ ∃ a t, x.run s = .ok (a, t) ∧ (f a).run t = .ok r := by
  simp only [run, bind]
  cases hx : x s with
  | error e => simp
  | ok p =>
    constructor
    · intro h
      exact ⟨p.1, p.2, rfl, h⟩
    · rintro ⟨a, t, he, h⟩
      cases he
      exact h

@[simp] lemma run_pure {a : α} {s : σ} {r : α × σ} :
    (pure a : Tx σ ε α).run s = .ok r ↔ r = (a, s) := by
  simp only [run, pure, Except.ok.injEq, eq_comm]

@[simp] lemma run_raise {e : ε} {s : σ} {r : α × σ} :
    (raise e : Tx σ ε α).run s = .ok r ↔ False := by
  simp [run, raise]

@[simp] lemma run_read {s : σ} {r : σ × σ} : (read : Tx σ ε σ).run s = .ok r ↔ r = (s, s) := by
  simp only [run, read, Except.ok.injEq, eq_comm]

@[simp] lemma run_write {f : σ → σ} {s : σ} {r : Unit × σ} :
    (write f : Tx σ ε Unit).run s = .ok r ↔ r = ((), f s) := by
  simp only [run, write, Except.ok.injEq, eq_comm]

@[simp] lemma run_require {p : Prop} [Decidable p] {e : ε} {s : σ} {r : Unit × σ} :
    (require p e : Tx σ ε Unit).run s = .ok r ↔ p ∧ r = ((), s) := by
  unfold require
  split_ifs with h <;> simp [h]

@[simp] lemma run_demand {o : Option α} {e : ε} {s : σ} {r : α × σ} :
    (demand o e : Tx σ ε α).run s = .ok r ↔ o = some r.1 ∧ r.2 = s := by
  cases o with
  | none => simp [demand]
  | some a =>
    simp only [demand, run_pure, Option.some.injEq]
    constructor
    · rintro rfl
      exact ⟨rfl, rfl⟩
    · rintro ⟨rfl, rfl⟩
      rfl

@[simp] lemma run_check {x : Except ε α} {s : σ} {r : α × σ} :
    (check x : Tx σ ε α).run s = .ok r ↔ x = .ok r.1 ∧ r.2 = s := by
  cases x with
  | error e => simp [check]
  | ok a =>
    simp only [check, run_pure, Except.ok.injEq]
    constructor
    · rintro rfl
      exact ⟨rfl, rfl⟩
    · rintro ⟨rfl, rfl⟩
      rfl

@[simp] lemma run_ite {p : Prop} [Decidable p] {x y : Tx σ ε α} {s : σ} {r : α × σ} :
    (if p then x else y).run s = .ok r ↔ (p ∧ x.run s = .ok r) ∨ (¬p ∧ y.run s = .ok r) := by
  split_ifs with h <;> simp [h]

lemma bind_read {f : σ → Tx σ ε β} {s : σ} {r : β × σ} :
    (read >>= f).run s = .ok r ↔ (f s).run s = .ok r :=
  Iff.rfl

lemma bind_write {g : σ → σ} {f : Unit → Tx σ ε β} {s : σ} {r : β × σ} :
    (write g >>= f).run s = .ok r ↔ (f ()).run (g s) = .ok r :=
  Iff.rfl

lemma bind_require {p : Prop} [Decidable p] {e : ε} {f : Unit → Tx σ ε β} {s : σ} {r : β × σ} :
    (require p e >>= f).run s = .ok r ↔ p ∧ (f ()).run s = .ok r := by
  unfold require
  split_ifs with h
  · rw [and_iff_right h]
    exact Iff.rfl
  · simp [h]

lemma bind_demand {o : Option α} {e : ε} {f : α → Tx σ ε β} {s : σ} {r : β × σ} :
    (demand o e >>= f).run s = .ok r ↔ ∃ a, o = some a ∧ (f a).run s = .ok r := by
  simp

section Errors

variable {e e' : ε} {s : σ}

lemma bind_error {x : Tx σ ε α} {f : α → Tx σ ε β} :
    (x >>= f).run s = .error e ↔
      x.run s = .error e ∨ ∃ a t, x.run s = .ok (a, t) ∧ (f a).run t = .error e := by
  simp only [run, bind]
  cases hx : x s with
  | error e' => simp
  | ok p =>
    constructor
    · intro h
      exact Or.inr ⟨p.1, p.2, rfl, h⟩
    · rintro (h | ⟨a, t, he, h⟩)
      · cases h
      · cases he
        exact h

lemma pure_error {a : α} : ¬(pure a : Tx σ ε α).run s = .error e := by simp [run, pure]

lemma read_error : ¬(read : Tx σ ε σ).run s = .error e := by simp [run, read]

lemma write_error {f : σ → σ} : ¬(write f : Tx σ ε Unit).run s = .error e := by simp [run, write]

lemma require_error {p : Prop} [Decidable p] : (require p e' : Tx σ ε Unit).run s = .error e ↔ ¬p ∧ e' = e := by
  unfold require
  split_ifs with h
  · simp [h, pure_error]
  · simp [h, run, raise]

lemma demand_error {o : Option α} : (demand o e' : Tx σ ε α).run s = .error e ↔ o = none ∧ e' = e := by
  cases o with
  | none => simp [demand, run, raise]
  | some a => simp [demand, pure_error]

end Errors

end Tx

def atomic (body : Tx σ ε α) (s : σ) : Except ε α × σ :=
  match body.run s with
  | .ok (a, t) => (.ok a, t)
  | .error e => (.error e, s)

lemma atomic_ok {body : Tx σ ε α} {s t : σ} {a : α} (h : body.run s = .ok (a, t)) :
    atomic body s = (.ok a, t) := by
  simp [atomic, h]

lemma atomic_cases (body : Tx σ ε α) (s : σ) :
    (∃ a t, body.run s = .ok (a, t) ∧ atomic body s = (.ok a, t)) ∨
      ∃ e, body.run s = .error e ∧ atomic body s = (.error e, s) := by
  cases h : body.run s with
  | ok p => exact Or.inl ⟨p.1, p.2, rfl, by simp [atomic, h]⟩
  | error e => exact Or.inr ⟨e, rfl, by simp [atomic, h]⟩

/-- Separate calls, each atomic, up to the first that fails. -/
def inOrder (call : α → Tx σ ε β) : List α → σ → Except ε (List β) × σ
  | [], s => (.ok [], s)
  | a :: as, s =>
    match atomic (call a) s with
    | (.error e, t) => (.error e, t)
    | (.ok b, t) =>
      match inOrder call as t with
      | (.error e, u) => (.error e, u)
      | (.ok bs, u) => (.ok (b :: bs), u)

lemma atomic_eq_ok {body : Tx σ ε α} {s t : σ} {a : α} : atomic body s = (.ok a, t) ↔ body.run s = .ok (a, t) := by
  rcases atomic_cases body s with ⟨b, u, hrun, hat⟩ | ⟨e, hrun, hat⟩
  · rw [hat, hrun]
    simp only [Prod.mk.injEq, Except.ok.injEq]
  · rw [hat, hrun]
    simp

lemma atomic_error {body : Tx σ ε α} {s : σ} {e : ε} (h : (atomic body s).1 = .error e) : (atomic body s).2 = s := by
  rcases atomic_cases body s with ⟨b, u, -, hat⟩ | ⟨e', -, hat⟩
  · rw [hat] at h
    cases h
  · rw [hat]

lemma inOrder_nil_ok {call : α → Tx σ ε β} {bs : List β} {s t : σ} :
    inOrder call [] s = (.ok bs, t) ↔ bs = [] ∧ t = s := by
  simp only [inOrder, Prod.mk.injEq, Except.ok.injEq, eq_comm]

lemma inOrder_cons_ok {call : α → Tx σ ε β} {a : α} {as : List α} {bs : List β} {s t : σ} :
    inOrder call (a :: as) s = (.ok bs, t) ↔
      ∃ b cs u, (call a).run s = .ok (b, u) ∧ inOrder call as u = (.ok cs, t) ∧ bs = b :: cs := by
  rcases atomic_cases (call a) s with ⟨b, u, hrun, hat⟩ | ⟨e, hrun, hat⟩
  · rw [inOrder, hat, hrun]
    rcases hrest : inOrder call as u with ⟨e | cs, w⟩
    · simp [hrest]
    · simp [hrest, eq_comm, and_comm]
  · rw [inOrder, hat, hrun]
    simp

end Vault.Lib.Transaction
