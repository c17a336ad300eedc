import Vault.Lib.Script

/-! Weakest preconditions of programs. A request may be answered in any way that `answers` allows,
so a precondition holds for every behaviour of the world; the rules compute it along the program. -/

namespace Vault.Lib.Script

open Vault.Lib.Transaction

variable {σ ε N ρ α β : Type} {Q : Type → Type}

abbrev Post (σ ε N ρ α : Type) := Except ε α → Point σ ρ N → Prop

def Post.seq (f : α → Point σ ρ N → Prop) (R : ε → Point σ ρ N → Prop) : Post σ ε N ρ α
  | .ok a, p => f a p
  | .error e, p => R e p

@[simp] lemma Post.seq_ok (f : α → Point σ ρ N → Prop) (R : ε → Point σ ρ N → Prop) (a : α)
    (p : Point σ ρ N) : Post.seq f R (.ok a) p = f a p := rfl

@[simp] lemma Post.seq_error (f : α → Point σ ρ N → Prop) (R : ε → Point σ ρ N → Prop) (e : ε)
    (p : Point σ ρ N) : Post.seq f R (.error e) p = R e p := rfl

variable [DecidableEq σ]

def wp (answers : ∀ {β : Type}, Q β → ρ → β → ρ → Prop) (R : Post σ ε N ρ α) :
    Script σ ε Q N α → Point σ ρ N → Prop
  | done r, p => R r p
  | look k, p => wp answers R (k p.session.view) p.look
  | tx body k, p => wp answers R (k (p.session.begin body).1) (p.move (p.session.begin body).2)
  | commit f k, p => wp answers R k (p.move (p.session.commit f))
  | ask q k, p => ∀ b w, answers q p.world b w → wp answers R (k b) (p.turn w)
  | note n k, p => wp answers R k (p.remark n)

variable {answers : ∀ {β : Type}, Q β → ρ → β → ρ → Prop}

theorem wp_sound {serve : ∀ {β : Type}, Q β → ρ → β × ρ}
    (hserve : ∀ {β : Type} (q : Q β) (w : ρ), answers q w (serve q w).1 (serve q w).2)
    {R : Post σ ε N ρ α} {x : Script σ ε Q N α} {p : Point σ ρ N} (h : wp answers R x p) :
    R (exec serve x p).1 (exec serve x p).2 := by
  induction x generalizing p with
  | done r => exact h
  | look k ih => exact ih p.session.view h
  | tx body k ih => exact ih (p.session.begin body).1 h
  | commit f k ih => exact ih h
  | ask q k ih => exact ih (serve q p.world).1 (h _ _ (hserve q p.world))
  | note n k ih => exact ih h

lemma wp_mono {R R' : Post σ ε N ρ α} (hR : ∀ r p, R r p → R' r p) {x : Script σ ε Q N α}
    {p : Point σ ρ N} (h : wp answers R x p) : wp answers R' x p := by
  induction x generalizing p with
  | done r => exact hR r p h
  | look k ih => exact ih p.session.view h
  | tx body k ih => exact ih (p.session.begin body).1 h
  | commit f k ih => exact ih h
  | ask q k ih => exact fun b w hb => ih b (h b w hb)
  | note n k ih => exact ih h

lemma wp_bind {R : Post σ ε N ρ β} {x : Script σ ε Q N α} {f : α → Script σ ε Q N β}
    {p : Point σ ρ N} :
    wp answers R (x >>= f) p ↔
      wp answers (Post.seq (fun a => wp answers R (f a)) (fun e => R (.error e))) x p := by
  change wp answers R (x.bind f) p ↔ _
  induction x generalizing p with
  | done r => cases r <;> rfl
  | look k ih => exact ih p.session.view
  | tx body k ih => exact ih (p.session.begin body).1
  | commit g k ih => exact ih
  | ask q k ih => exact forall_congr' fun b => forall_congr' fun w => forall_congr' fun _ => ih b
  | note n k ih => exact ih

lemma wp_handle {R : Post σ ε N ρ α} {x : Script σ ε Q N α} {h : ε → Script σ ε Q N α}
    {p : Point σ ρ N} :
    wp answers R (x.handle h) p ↔
      wp answers (Post.seq (fun a => R (.ok a)) (fun e => wp answers R (h e))) x p := by
  induction x generalizing p with
  | done r => cases r <;> rfl
  | look k ih => exact ih p.session.view
  | tx body k ih => exact ih (p.session.begin body).1
  | commit g k ih => exact ih
  | ask q k ih => exact forall_congr' fun b => forall_congr' fun w => forall_congr' fun _ => ih b
  | note n k ih => exact ih

lemma wp_attempt {R : Post σ ε N ρ (Except ε α)} {x : Script σ ε Q N α} {p : Point σ ρ N} :
    wp answers R x.attempt p ↔ wp answers (fun r => R (.ok r)) x p := by
  induction x generalizing p with
  | done r => exact Iff.rfl
  | look k ih => exact ih p.session.view
  | tx body k ih => exact ih (p.session.begin body).1
  | commit g k ih => exact ih
  | ask q k ih => exact forall_congr' fun b => forall_congr' fun w => forall_congr' fun _ => ih b
  | note n k ih => exact ih

lemma wp_and {R R' : Post σ ε N ρ α} {x : Script σ ε Q N α} {p : Point σ ρ N} (h : wp answers R x p)
    (h' : wp answers R' x p) : wp answers (fun r q => R r q ∧ R' r q) x p := by
  induction x generalizing p with
  | done r => exact ⟨h, h'⟩
  | look k ih => exact ih p.session.view h h'
  | tx body k ih => exact ih (p.session.begin body).1 h h'
  | commit g k ih => exact ih h h'
  | ask q k ih => exact fun b w hb => ih b (h b w hb) (h' b w hb)
  | note n k ih => exact ih h h'

section Primitives

variable {R : Post σ ε N ρ α} {p : Point σ ρ N}

@[simp] lemma wp_pure {a : α} : wp answers R (pure a : Script σ ε Q N α) p ↔ R (.ok a) p := Iff.rfl

@[simp] lemma wp_raise {e : ε} : wp answers R (raise e : Script σ ε Q N α) p ↔ R (.error e) p := Iff.rfl

@[simp] lemma wp_lift {r : Except ε α} : wp answers R (lift r : Script σ ε Q N α) p ↔ R r p := Iff.rfl

@[simp] lemma wp_transaction {body : Tx σ ε α} :
    wp answers R (transaction body : Script σ ε Q N α) p ↔
      R (p.session.begin body).1 (p.move (p.session.begin body).2) := Iff.rfl

lemma wp_transaction_of {body : Tx σ ε α}
    (hok : ∀ a t, body.run p.session.view = .ok (a, t) → (p.session.begin body).2.view = t →
      R (.ok a) (p.move (p.session.begin body).2))
    (herror : ∀ e, body.run p.session.view = .error e → R (.error e) (p.move (p.session.begin body).2)) :
    wp answers R (transaction body : Script σ ε Q N α) p := by
  rw [wp_transaction, Session.begin_result]
  rcases atomic_cases body p.session.view with ⟨a, t, hr, ha⟩ | ⟨e, hr, ha⟩
  · rw [ha]
    exact hok a t hr (by rw [Session.begin_view, ha])
  · rw [ha]
    exact herror e hr

/-- A post that speaks of the session only through what it sees. -/
lemma wp_transaction_view {body : Tx σ ε α}
    (hok : ∀ a s, body.run p.session.view = .ok (a, s.view) → R (.ok a) (p.move s))
    (herror : ∀ e s, body.run p.session.view = .error e → s.view = p.session.view → R (.error e) (p.move s)) :
    wp answers R (transaction body : Script σ ε Q N α) p := by
  refine wp_transaction_of (fun a t hrun hview => hok a _ (hview ▸ hrun)) fun e hrun => herror e _ hrun ?_
  rw [Session.begin_view, atomic, hrun]

lemma wp_transaction_ok {body : Tx σ ε α} {a : α} {t : σ} (hrun : body.run p.session.view = .ok (a, t))
    (h : ∀ s : Session σ, s.view = t → R (.ok a) (p.move s)) :
    wp answers R (transaction body : Script σ ε Q N α) p := by
  refine wp_transaction_view (fun a' s hs => ?_) fun e s he => ?_
  · cases hrun.symm.trans hs
    exact h s rfl
  · cases hrun.symm.trans he

@[simp] lemma wp_request {q : Q α} :
    wp answers R (request q : Script σ ε Q N α) p ↔
      ∀ b w, answers q p.world b w → R (.ok b) (p.turn w) := Iff.rfl

lemma wp_ite {c : Prop} [Decidable c] {x y : Script σ ε Q N α} :
    wp answers R (if c then x else y) p ↔ (c → wp answers R x p) ∧ (¬c → wp answers R y p) := by
  split_ifs with h <;> simp [h]

@[simp] lemma wp_demand {o : Option α} {e : ε} :
    wp answers R (demand o e : Script σ ε Q N α) p ↔
      (∀ a, o = some a → R (.ok a) p) ∧ (o = none → R (.error e) p) := by
  cases o <;> simp [demand]

end Primitives

lemma wp_bind_lift {R : Post σ ε N ρ β} {r : Except ε α} {f : α → Script σ ε Q N β} {p : Point σ ρ N} :
    wp answers R (lift r >>= f) p ↔
      (∀ a, r = .ok a → wp answers R (f a) p) ∧ ∀ e, r = .error e → R (.error e) p := by
  rw [wp_bind, wp_lift]
  cases r <;> simp

section Effects

variable {p : Point σ ρ N}

@[simp] lemma wp_query {R : Post σ ε N ρ σ} :
    wp answers R (query : Script σ ε Q N σ) p ↔ R (.ok p.session.view) p.look := Iff.rfl

@[simp] lemma wp_save {R : Post σ ε N ρ Unit} {f : σ → σ} :
    wp answers R (save f : Script σ ε Q N Unit) p ↔ R (.ok ()) (p.move (p.session.commit f)) := Iff.rfl

@[simp] lemma wp_remark {R : Post σ ε N ρ Unit} {n : N} :
    wp answers R (remark n : Script σ ε Q N Unit) p ↔ R (.ok ()) (p.remark n) := Iff.rfl

@[simp] lemma wp_require {R : Post σ ε N ρ Unit} {c : Prop} [Decidable c] {e : ε} :
    wp answers R (require c e : Script σ ε Q N Unit) p ↔
      (c → R (.ok ()) p) ∧ (¬c → R (.error e) p) := by
  unfold require
  split_ifs with h <;> simp [h]

end Effects

/-- From a point where `I` holds the program leads only to points where it holds, whatever it is
answered and whether it returns or raises. -/
def Keeps (answers : ∀ {β : Type}, Q β → ρ → β → ρ → Prop) (I : Point σ ρ N → Prop)
    (x : Script σ ε Q N α) : Prop :=
  ∀ p, I p → wp answers (fun _ => I) x p

section Keeps

variable {I : Point σ ρ N → Prop}

lemma wp_bind_keeps {x : Script σ ε Q N α} {f : α → Script σ ε Q N β} {p : Point σ ρ N}
    (hx : wp answers (fun _ => I) x p) (hf : ∀ a, Keeps answers I (f a)) :
    wp answers (fun _ => I) (x >>= f) p := by
  refine wp_bind.mpr (wp_mono ?_ hx)
  intro r q hq
  cases r with
  | ok a => exact hf a q hq
  | error e => exact hq

lemma keeps_bind {x : Script σ ε Q N α} {f : α → Script σ ε Q N β} (hx : Keeps answers I x)
    (hf : ∀ a, Keeps answers I (f a)) : Keeps answers I (x >>= f) :=
  fun p hp => wp_bind_keeps (hx p hp) hf

lemma keeps_handle {x : Script σ ε Q N α} {h : ε → Script σ ε Q N α} (hx : Keeps answers I x)
    (hh : ∀ e, Keeps answers I (h e)) : Keeps answers I (x.handle h) := by
  intro p hp
  refine wp_handle.mpr (wp_mono ?_ (hx p hp))
  intro r q hq
  cases r with
  | ok a => exact hq
  | error e => exact hh e q hq

lemma keeps_attempt {x : Script σ ε Q N α} (hx : Keeps answers I x) : Keeps answers I x.attempt :=
  fun p hp => wp_attempt.mpr (hx p hp)

lemma keeps_done (r : Except ε α) : Keeps answers I (done r : Script σ ε Q N α) := fun _ hp => hp

lemma keeps_pure (a : α) : Keeps answers I (pure a : Script σ ε Q N α) := keeps_done _

lemma keeps_raise (e : ε) : Keeps answers I (raise e : Script σ ε Q N α) := keeps_done _

lemma keeps_ite {c : Prop} [Decidable c] {x y : Script σ ε Q N α} (hx : c → Keeps answers I x)
    (hy : ¬c → Keeps answers I y) : Keeps answers I (if c then x else y) := by
  split_ifs with h
  · exact hx h
  · exact hy h

lemma keeps_demand (o : Option α) (e : ε) : Keeps answers I (demand o e : Script σ ε Q N α) := by
  cases o with
  | none => exact keeps_raise e
  | some a => exact keeps_pure a

lemma keeps_require (c : Prop) [Decidable c] (e : ε) :
    Keeps answers I (require c e : Script σ ε Q N Unit) :=
  keeps_ite (fun _ => keeps_pure ()) fun _ => keeps_raise e

lemma keeps_query (hl : ∀ p, I p → I p.look) : Keeps answers I (query : Script σ ε Q N σ) := hl

lemma keeps_request_of {q : Q α} (ht : ∀ p b w, answers q p.world b w → I p → I (p.turn w)) :
    Keeps answers I (request q : Script σ ε Q N α) :=
  fun p hp b w hb => ht p b w hb hp

lemma keeps_request (ht : ∀ p w, I p → I (p.turn w)) (q : Q α) :
    Keeps answers I (request q : Script σ ε Q N α) :=
  keeps_request_of fun p _ w _ => ht p w

lemma keeps_forEach {f : α → Script σ ε Q N β} (hf : ∀ a, Keeps answers I (f a)) (as : List α) :
    Keeps answers I (forEach f as) := by
  induction as with
  | nil => exact keeps_pure []
  | cons a as ih =>
    exact keeps_bind (hf a) fun b => keeps_bind ih fun bs => keeps_pure (b :: bs)

/-- The invariant of a loop may speak of the values that the loop has collected so far. -/
lemma wp_forEach_collect {J : List β → List α → Point σ ρ N → Prop} {E : ε → Point σ ρ N → Prop}
    {f : α → Script σ ε Q N β}
    (hf : ∀ bs a as p, J bs (a :: as) p → wp answers (Post.seq (fun b => J (bs ++ [b]) as) E) (f a) p)
    {bs : List β} {as : List α} {p : Point σ ρ N} (hp : J bs as p) :
    wp answers (Post.seq (fun bs' => J (bs ++ bs') []) E) (forEach f as) p := by
  induction as generalizing bs p with
  | nil =>
    change J (bs ++ []) [] p
    rw [List.append_nil]
    exact hp
  | cons a as ih =>
    refine wp_bind.mpr (wp_mono ?_ (hf bs a as p hp))
    intro r q hq
    cases r with
    | error e => exact hq
    | ok b =>
      refine wp_bind.mpr (wp_mono ?_ (ih hq))
      intro r' q' hq'
      cases r' with
      | error e => exact hq'
      | ok bs' =>
        change J (bs ++ b :: bs') [] q'
        rw [List.append_cons]
        exact hq'

lemma wp_forEach {J : List α → Point σ ρ N → Prop} {E : ε → Point σ ρ N → Prop}
    {f : α → Script σ ε Q N β}
    (hf : ∀ a as p, J (a :: as) p → wp answers (Post.seq (fun _ => J as) E) (f a) p) {as : List α}
    {p : Point σ ρ N} (hp : J as p) :
    wp answers (Post.seq (fun _ => J []) E) (forEach f as) p :=
  @wp_forEach_collect σ ε N ρ α β Q _ answers (fun _ => J) E f (fun _ => hf) [] as p hp

/-- What no further event can undo holds of the record wherever it held before. -/
lemma wp_record {P : List (Event σ ρ N) → Prop} (hP : ∀ es e, P es → P (es ++ [e])) {x : Script σ ε Q N α}
    {p : Point σ ρ N} (h : P p.past) : wp answers (fun _ q => P q.past) x p := by
  induction x generalizing p with
  | done r => exact h
  | look k ih => exact ih p.session.view h
  | tx body k ih => exact ih (p.session.begin body).1 (hP _ _ h)
  | commit f k ih => exact ih (hP _ _ h)
  | ask q k ih => exact fun b w _ => ih b (hP _ _ h)
  | note n k ih => exact ih (hP _ _ h)

/-- What the record of a run shows, it still shows after whatever runs next. -/
lemma wp_past {E : Event σ ρ N} {x : Script σ ε Q N α} {p : Point σ ρ N} (h : E ∈ p.past) :
    wp answers (fun _ q => E ∈ q.past) x p :=
  wp_record (P := fun es => E ∈ es) (fun _ _ he => List.mem_append_left _ he) h

/-- What the last part establishes, whatever the parts before it did. -/
lemma wp_bind_last {R : β → Point σ ρ N → Prop} {x : Script σ ε Q N α} {f : α → Script σ ε Q N β} {p : Point σ ρ N}
    (hf : ∀ a q, wp answers (Post.seq R fun _ _ => True) (f a) q) :
    wp answers (Post.seq R fun _ _ => True) (x >>= f) p := by
  have hany : wp answers (fun _ _ => True) x p := wp_record (P := fun _ => True) (fun _ _ h => h) trivial
  refine wp_bind.mpr (wp_mono ?_ hany)
  intro r q _
  cases r with
  | ok a => exact hf a q
  | error e => trivial

/-- One part after the other, for what holds when both return. -/
lemma wp_bind_returns {P : α → Point σ ρ N → Prop} {R : β → Point σ ρ N → Prop} {x : Script σ ε Q N α}
    {f : α → Script σ ε Q N β} {p : Point σ ρ N} (hx : wp answers (Post.seq P fun _ _ => True) x p)
    (hf : ∀ a q, P a q → wp answers (Post.seq R fun _ _ => True) (f a) q) :
    wp answers (Post.seq R fun _ _ => True) (x >>= f) p := by
  refine wp_bind.mpr (wp_mono ?_ hx)
  intro r q hq
  cases r with
  | ok a => exact hf a q hq
  | error e => trivial

/-- What no answer can undo holds of the world wherever it held before. -/
lemma wp_world {W : ρ → Prop} (hW : ∀ {β : Type} (q : Q β) w b w', answers q w b w' → W w → W w')
    {x : Script σ ε Q N α} {p : Point σ ρ N} (h : W p.world) : wp answers (fun _ q => W q.world) x p := by
  induction x generalizing p with
  | done r => exact h
  | look k ih => exact ih p.session.view h
  | tx body k ih => exact ih (p.session.begin body).1 h
  | commit f k ih => exact ih h
  | ask q k ih => exact fun b w hb => ih b (hW q _ b w hb h)
  | note n k ih => exact ih h

section Throughout

variable {P : ρ → σ → Prop}

/-- The state that the session sees and the committed one both satisfy `P`, given the world, and so they did
wherever the run has been. -/
structure Throughout (P : ρ → σ → Prop) (p : Point σ ρ N) : Prop where
  view : P p.world p.session.view
  durable : P p.world p.session.durable
  past : ∀ s w, .state s w ∈ p.past → P w s.view ∧ P w s.durable

omit [DecidableEq σ] in
lemma Throughout.concat {p : Point σ ρ N} (h : Throughout P p) {s : Session σ} {w : ρ} (hv : P w s.view)
    (hd : P w s.durable) : Throughout P (⟨s, w, p.past ++ [.state s w]⟩ : Point σ ρ N) := by
  refine ⟨hv, hd, fun s' w' he => ?_⟩
  rcases List.mem_append.mp he with he | he
  · exact h.past s' w' he
  · cases List.mem_singleton.mp he
    exact ⟨hv, hd⟩

omit [DecidableEq σ] in
lemma Throughout.look {p : Point σ ρ N} (h : Throughout P p) : Throughout P p.look := ⟨h.view, h.durable, h.past⟩

omit [DecidableEq σ] in
lemma Throughout.turn {p : Point σ ρ N} (h : Throughout P p) {w : ρ} (hw : ∀ s, P p.world s → P w s) :
    Throughout P (p.turn w) := h.concat (hw _ h.view) (hw _ h.durable)

lemma wp_transaction_throughout {p : Point σ ρ N} (h : Throughout P p) {body : Tx σ ε α}
    (hb : ∀ a t, body.run p.session.view = .ok (a, t) → P p.world t) :
    wp answers (fun _ => Throughout P) (transaction body : Script σ ε Q N α) p := by
  have hview : P p.world (p.session.begin body).2.view := by
    rw [Session.begin_view]
    rcases atomic_cases body p.session.view with ⟨a, t, hr, ha⟩ | ⟨e, -, ha⟩
    · rw [ha]
      exact hb a t hr
    · rw [ha]
      exact h.view
  refine wp_transaction.mpr (h.concat hview ?_)
  rcases Session.begin_durable body p.session with hd | hd
  · rw [hd]
    exact h.durable
  · rw [hd]
    exact hview

lemma keeps_transaction_throughout {body : Tx σ ε α} (hb : ∀ w s a t, P w s → body.run s = .ok (a, t) → P w t) :
    Keeps answers (Throughout P) (transaction body : Script σ ε Q N α) :=
  fun _ hp => wp_transaction_throughout hp fun a t => hb _ _ a t hp.view

lemma keeps_save_throughout {f : σ → σ} (hf : ∀ w s, P w s → P w (f s)) :
    Keeps answers (Throughout P) (save f : Script σ ε Q N Unit) :=
  fun _ hp => wp_save.mpr (hp.concat (hf _ _ hp.view) (hf _ _ hp.view))

lemma keeps_query_throughout : Keeps answers (Throughout P) (query : Script σ ε Q N σ) :=
  fun _ hp => hp.look

lemma keeps_request_throughout (hP : ∀ {β : Type} (q : Q β) w b w' s, answers q w b w' → P w s → P w' s) (q : Q α) :
    Keeps answers (Throughout P) (request q : Script σ ε Q N α) :=
  fun _ hp b w hb => hp.turn fun s => hP q _ b w s hb

lemma keeps_remark_throughout (n : N) : Keeps answers (Throughout P) (remark n : Script σ ε Q N Unit) :=
  fun p hp => ⟨hp.view, hp.durable, fun s w he => hp.past s w (by simpa [Point.remark] using he)⟩

end Throughout

end Keeps

attribute [irreducible] wp

end Vault.Lib.Script
