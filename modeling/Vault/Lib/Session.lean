import Vault.Lib.Transaction

/-! Database sessions. A query opens a transaction. A block that finds no open transaction begins
and commits its own; inside an open one it is only a savepoint, whose changes wait for the next
commit. -/

namespace Vault.Lib

open Vault.Lib.Transaction

variable {σ ε β : Type}

/-- The committed state, the state that the session sees, whether a transaction is open, and the
changes that wait for a commit. -/
structure Session (σ : Type) where
  durable : σ
  view : σ
  inTransaction : Bool
  unsaved : List (σ × σ)

namespace Session

def fresh (s : σ) : Session σ := ⟨s, s, false, []⟩

def look (s : Session σ) : Session σ := { s with inTransaction := true }

def commit (f : σ → σ) (s : Session σ) : Session σ := fresh (f s.view)

def rollback (s : Session σ) : Session σ := fresh s.durable

/-- Outside a transaction nothing waits, and when nothing waits a rollback discards nothing. -/
structure Sound (s : Session σ) : Prop where
  closed : s.inTransaction = false → s.unsaved = []
  saved : s.unsaved = [] → s.view = s.durable

lemma sound_fresh (s : σ) : Sound (fresh s) := ⟨fun _ => rfl, fun _ => rfl⟩

lemma Sound.look {s : Session σ} (h : Sound s) : Sound s.look where
  closed hc := by cases hc
  saved := h.saved

variable [DecidableEq σ]

def delta (a b : σ) : List (σ × σ) := if a = b then [] else [(a, b)]

def begin (body : Tx σ ε β) (s : Session σ) : Except ε β × Session σ :=
  let (r, t) := atomic body s.view
  if s.inTransaction then (r, { s with view := t, unsaved := s.unsaved ++ delta s.view t })
  else (r, fresh t)

@[simp] lemma begin_result (body : Tx σ ε β) (s : Session σ) :
    (s.begin body).1 = (atomic body s.view).1 := by
  unfold begin
  dsimp only
  split_ifs <;> rfl

@[simp] lemma begin_view (body : Tx σ ε β) (s : Session σ) :
    (s.begin body).2.view = (atomic body s.view).2 := by
  unfold begin
  dsimp only
  split_ifs <;> rfl

lemma begin_durable (body : Tx σ ε β) (s : Session σ) :
    (s.begin body).2.durable = s.durable ∨ (s.begin body).2.durable = (s.begin body).2.view := by
  unfold begin
  dsimp only
  split_ifs
  · exact Or.inl rfl
  · exact Or.inr rfl

lemma Sound.begin {s : Session σ} (h : Sound s) (body : Tx σ ε β) : Sound (s.begin body).2 := by
  unfold Session.begin
  dsimp only
  split_ifs with ho
  · constructor
    · intro hc
      exact absurd ho (by simpa using hc)
    · intro hu
      obtain ⟨hu, hd⟩ := List.append_eq_nil_iff.mp hu
      have hsame : s.view = (atomic body s.view).2 := by
        by_contra hne
        simp [delta, hne] at hd
      exact hsame.symm.trans (h.saved hu)
  · exact sound_fresh _

/-- Leaving the scope of the session rolls it back and loses no change. -/
def Kept (s : Session σ) : Prop := s.unsaved = [] ∧ s.rollback.durable = s.view

instance (s : Session σ) : Decidable s.Kept := inferInstanceAs (Decidable (_ ∧ _))

end Session

end Vault.Lib
