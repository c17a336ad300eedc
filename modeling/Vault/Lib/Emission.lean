import Vault.Lib.Rules

/-! What a program notes down, in the order in which it does. Requests, queries and transactions add nothing to it. -/

namespace Vault.Lib

open Vault.Lib.Transaction Vault.Lib.Script

variable {σ ε N ρ α β : Type} {Q : Type → Type} {answers : ∀ {β : Type}, Q β → ρ → β → ρ → Prop}

def Event.note? : Event σ ρ N → Option N
  | .note n => some n
  | .state _ _ => none

namespace Point

def notes (p : Point σ ρ N) : List N := p.past.filterMap Event.note?

@[simp] lemma notes_start (s : σ) (w : ρ) : (start s w : Point σ ρ N).notes = [] := rfl

@[simp] lemma notes_look (p : Point σ ρ N) : p.look.notes = p.notes := rfl

@[simp] lemma notes_turn (w : ρ) (p : Point σ ρ N) : (p.turn w).notes = p.notes := by
  simp [notes, turn, Event.note?]

@[simp] lemma notes_remark (n : N) (p : Point σ ρ N) : (p.remark n).notes = p.notes ++ [n] := by
  simp [notes, remark, Event.note?]

end Point

section Rules

variable [DecidableEq σ] {R : Post σ ε N ρ α} {p : Point σ ρ N}

lemma wp_ensure {x : Script σ ε Q N α} {y : Script σ ε Q N Unit} : wp answers R (ensure x y) p ↔
    wp answers (fun r => wp answers (Post.seq (fun _ => R r) fun e => R (.error e)) y) x p := by
  have hlift : ∀ r : Except ε α, wp answers R (lift r : Script σ ε Q N α) = R r := by
    intro r
    funext q
    exact propext wp_lift
  have hlast : ∀ (r : Except ε α) (q : Point σ ρ N), wp answers R (do y; lift r : Script σ ε Q N α) q ↔
      wp answers (Post.seq (fun _ => R r) fun e => R (.error e)) y q := by
    intro r q
    rw [wp_bind, hlift]
  rw [ensure, wp_bind, wp_attempt]
  constructor
  · exact wp_mono fun r q h => (hlast r q).mp h
  · exact wp_mono fun r q h => (hlast r q).mpr h

/-- A loop that only notes things down adds exactly them. -/
lemma wp_remarkAll (f : α → N) (as : List α) (p : Point σ ρ N) :
    wp answers (Post.seq (fun _ q => q.notes = p.notes ++ as.map f ∧ q.world = p.world ∧ q.session = p.session)
      fun _ _ => False) (forEach (fun a => remark (f a)) as : Script σ ε Q N (List Unit)) p := by
  induction as generalizing p with
  | nil => exact wp_pure.mpr ⟨by simp, rfl, rfl⟩
  | cons a as ih =>
    refine wp_bind.mpr (wp_remark.mpr (wp_bind.mpr (wp_mono ?_ (ih (p.remark (f a))))))
    intro r q hq
    cases r with
    | error e => exact hq
    | ok bs =>
      refine wp_pure.mpr ⟨?_, hq.2⟩
      rw [hq.1, Point.notes_remark, List.append_assoc, List.map_cons, List.singleton_append]

end Rules

end Vault.Lib
