import Vault.Lib.Session

/-! Programs as trees of what they do to a database session and to the world outside it: queries,
transaction blocks, commits, requests, and notes that change nothing. Running a tree records every
state that it leaves behind and every note that it makes. -/

namespace Vault.Lib

open Vault.Lib.Transaction

inductive Script (σ ε : Type) (Q : Type → Type) (N α : Type) : Type 1
  | done (result : Except ε α)
  | look (k : σ → Script σ ε Q N α)
  | tx {β : Type} (body : Tx σ ε β) (k : Except ε β → Script σ ε Q N α)
  | commit (f : σ → σ) (k : Script σ ε Q N α)
  | ask {β : Type} (q : Q β) (k : β → Script σ ε Q N α)
  | note (n : N) (k : Script σ ε Q N α)

variable {σ ε N ρ α β : Type} {Q : Type → Type}

namespace Script

def bind : Script σ ε Q N α → (α → Script σ ε Q N β) → Script σ ε Q N β
  | done (.ok a), f => f a
  | done (.error e), _ => done (.error e)
  | look k, f => look (fun s => (k s).bind f)
  | tx body k, f => tx body (fun r => (k r).bind f)
  | commit g k, f => commit g (k.bind f)
  | ask q k, f => ask q (fun b => (k b).bind f)
  | note n k, f => note n (k.bind f)

instance : Monad (Script σ ε Q N) where
  pure a := done (.ok a)
  bind := Script.bind

lemma bind_def (x : Script σ ε Q N α) (f : α → Script σ ε Q N β) : x >>= f = x.bind f := rfl

lemma pure_def (a : α) : (pure a : Script σ ε Q N α) = done (.ok a) := rfl

def handle : Script σ ε Q N α → (ε → Script σ ε Q N α) → Script σ ε Q N α
  | done (.ok a), _ => done (.ok a)
  | done (.error e), h => h e
  | look k, h => look (fun s => (k s).handle h)
  | tx body k, h => tx body (fun r => (k r).handle h)
  | commit g k, h => commit g (k.handle h)
  | ask q k, h => ask q (fun b => (k b).handle h)
  | note n k, h => note n (k.handle h)

/-- Runs the program and hands over how it ended. -/
def attempt : Script σ ε Q N α → Script σ ε Q N (Except ε α)
  | done r => done (.ok r)
  | look k => look (fun s => (k s).attempt)
  | tx body k => tx body (fun r => (k r).attempt)
  | commit g k => commit g k.attempt
  | ask q k => ask q (fun b => (k b).attempt)
  | note n k => note n k.attempt

def raise (e : ε) : Script σ ε Q N α := done (.error e)

def query : Script σ ε Q N σ := look (fun s => done (.ok s))

def transaction (body : Tx σ ε α) : Script σ ε Q N α := tx body done

def save (f : σ → σ) : Script σ ε Q N Unit := commit f (done (.ok ()))

def request (q : Q β) : Script σ ε Q N β := ask q (fun b => done (.ok b))

def remark (n : N) : Script σ ε Q N Unit := note n (done (.ok ()))

def require (p : Prop) [Decidable p] (e : ε) : Script σ ε Q N Unit := if p then pure () else raise e

def demand : Option α → ε → Script σ ε Q N α
  | some a, _ => pure a
  | none, e => raise e

def lift : Except ε α → Script σ ε Q N α := done

/-- `try: x finally: y`: an error of `y` takes the place of the result of `x`. -/
def ensure (x : Script σ ε Q N α) (y : Script σ ε Q N Unit) : Script σ ε Q N α := do
  let r ← x.attempt
  y
  lift r

def forEach (f : α → Script σ ε Q N β) : List α → Script σ ε Q N (List β)
  | [] => pure []
  | a :: as => do
    let b ← f a
    let bs ← forEach f as
    pure (b :: bs)

end Script

inductive Event (σ ρ N : Type)
  | state (session : Session σ) (world : ρ)
  | note (n : N)

/-- Where a run stands: its session, the world, and what it has left behind so far. -/
structure Point (σ ρ N : Type) where
  session : Session σ
  world : ρ
  past : List (Event σ ρ N)

namespace Point

def start (s : σ) (w : ρ) : Point σ ρ N := ⟨Session.fresh s, w, []⟩

def look (p : Point σ ρ N) : Point σ ρ N := { p with session := p.session.look }

def move (s : Session σ) (p : Point σ ρ N) : Point σ ρ N :=
  { p with session := s, past := p.past ++ [.state s p.world] }

def turn (w : ρ) (p : Point σ ρ N) : Point σ ρ N :=
  { p with world := w, past := p.past ++ [.state p.session w] }

def remark (n : N) (p : Point σ ρ N) : Point σ ρ N := { p with past := p.past ++ [.note n] }

end Point

namespace Script

variable [DecidableEq σ]

def exec (serve : ∀ {β : Type}, Q β → ρ → β × ρ) :
    Script σ ε Q N α → Point σ ρ N → Except ε α × Point σ ρ N
  | done r, p => (r, p)
  | look k, p => exec serve (k p.session.view) p.look
  | tx body k, p => exec serve (k (p.session.begin body).1) (p.move (p.session.begin body).2)
  | commit f k, p => exec serve k (p.move (p.session.commit f))
  | ask q k, p => exec serve (k (serve q p.world).1) (p.turn (serve q p.world).2)
  | note n k, p => exec serve k (p.remark n)

lemma exec_bind (serve : ∀ {β : Type}, Q β → ρ → β × ρ) (x : Script σ ε Q N α) (f : α → Script σ ε Q N β)
    (p : Point σ ρ N) :
    exec serve (x >>= f) p =
      match exec serve x p with
      | (.ok a, q) => exec serve (f a) q
      | (.error e, q) => (.error e, q) := by
  induction x generalizing p with
  | done r => cases r <;> rfl
  | look k ih => exact ih _ _
  | tx body k ih => exact ih _ _
  | commit g k ih => exact ih _
  | ask q k ih => exact ih _ _
  | note n k ih => exact ih _

lemma exec_unit (serve : ∀ {β : Type}, Q β → ρ → β × ρ) (x : Script σ ε Q N α) (p : Point σ ρ N) :
    (exec serve (do let _ ← x; pure ()) p).2 = (exec serve x p).2 := by
  rw [exec_bind]
  rcases exec serve x p with ⟨_ | _, q⟩ <;> rfl

end Script

end Vault.Lib
