import Vault.Lib.Script

/-! Scripts in two kinds of worlds. Where the worlds of one kind explain those of the other backwards, from what a
request left behind to what it found, every run of a script in the one is a run in the other: it ends in the same
way, in the same session, and leaves the same states and notes behind. -/

namespace Vault.Lib.Script

variable {σ ε N ρ τ α : Type} {Q : Type → Type}

/-- The same session beside related worlds, or the same note. -/
inductive EventRel (R : ρ → τ → Prop) : Event σ ρ N → Event σ τ N → Prop
  | state (s : Session σ) {w : ρ} {v : τ} : R w v → EventRel R (.state s w) (.state s v)
  | note (n : N) : EventRel R (.note n) (.note n)

structure PointRel (R : ρ → τ → Prop) (p : Point σ ρ N) (q : Point σ τ N) : Prop where
  session : q.session = p.session
  world : R p.world q.world
  past : List.Forall₂ (EventRel R) p.past q.past

/-- Every world is explained by one of the other kind, and an explanation of what a request leaves behind can be traced
back over the request. -/
structure Backward (serve : ∀ {β : Type}, Q β → ρ → β × ρ) (serve' : ∀ {β : Type}, Q β → τ → β × τ)
    (R : ρ → τ → Prop) : Prop where
  explained : ∀ w, ∃ v, R w v
  traced : ∀ {β : Type} (q : Q β) (w : ρ) (v : τ), R (serve q w).2 v → ∃ u, R w u ∧ serve' q u = ((serve q w).1, v)

variable {serve : ∀ {β : Type}, Q β → ρ → β × ρ} {serve' : ∀ {β : Type}, Q β → τ → β × τ} {R : ρ → τ → Prop}

lemma PointRel.move {p : Point σ ρ N} {q : Point σ τ N} (h : PointRel R p q) (s : Session σ) :
    PointRel R (p.move s) (q.move s) where
  session := rfl
  world := h.world
  past := List.rel_append h.past (.cons (.state s h.world) .nil)

lemma PointRel.remark {p : Point σ ρ N} {q : Point σ τ N} (h : PointRel R p q) (n : N) :
    PointRel R (p.remark n) (q.remark n) where
  session := h.session
  world := h.world
  past := List.rel_append h.past (.cons (.note n) .nil)

variable [DecidableEq σ]

/-- The induction is on the script, from its end: the world that explains the rest of the run comes first. -/
theorem Backward.exec (h : Backward serve serve' R) (x : Script σ ε Q N α) (p : Point σ ρ N) :
    ∃ v, R p.world v ∧ ∀ q : Point σ τ N, q.world = v → PointRel R p q →
      (Script.exec serve' x q).1 = (Script.exec serve x p).1 ∧
        PointRel R (Script.exec serve x p).2 (Script.exec serve' x q).2 := by
  induction x generalizing p with
  | done r =>
    obtain ⟨v, hv⟩ := h.explained p.world
    exact ⟨v, hv, fun q _ hq => ⟨rfl, hq⟩⟩
  | look k ih =>
    obtain ⟨v, hv, hrest⟩ := ih p.session.view p.look
    refine ⟨v, hv, fun q hqv hq => ?_⟩
    have hlook : PointRel R p.look q.look := ⟨congrArg Session.look hq.session, hq.world, hq.past⟩
    have hrun := hrest q.look hqv hlook
    simp only [Script.exec, hq.session]
    exact hrun
  | tx body k ih =>
    obtain ⟨v, hv, hrest⟩ := ih (p.session.begin body).1 (p.move (p.session.begin body).2)
    refine ⟨v, hv, fun q hqv hq => ?_⟩
    have hrun := hrest (q.move (p.session.begin body).2) hqv (hq.move _)
    simp only [Script.exec, hq.session]
    exact hrun
  | commit f k ih =>
    obtain ⟨v, hv, hrest⟩ := ih (p.move (p.session.commit f))
    refine ⟨v, hv, fun q hqv hq => ?_⟩
    have hrun := hrest (q.move (p.session.commit f)) hqv (hq.move _)
    simp only [Script.exec, hq.session]
    exact hrun
  | ask b k ih =>
    obtain ⟨v, hv, hrest⟩ := ih (serve b p.world).1 (p.turn (serve b p.world).2)
    obtain ⟨u, hu, hserve⟩ := h.traced b p.world v hv
    refine ⟨u, hu, fun q hqu hq => ?_⟩
    have hturn : PointRel R (p.turn (serve b p.world).2) (q.turn v) := by
      refine ⟨hq.session, hv, List.rel_append hq.past (.cons ?_ .nil)⟩
      rw [hq.session]
      exact .state _ hv
    have hrun := hrest (q.turn v) rfl hturn
    simp only [Script.exec, hqu, hserve]
    exact hrun
  | note n k ih =>
    obtain ⟨v, hv, hrest⟩ := ih (p.remark n)
    exact ⟨v, hv, fun q hqv hq => hrest (q.remark n) hqv (hq.remark n)⟩

end Vault.Lib.Script
