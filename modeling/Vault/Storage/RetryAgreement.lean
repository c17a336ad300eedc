import Vault.Storage.Retries

/-! The loop of `_request` and the one of `stream_object` follow one policy: they go on after a transient
outcome, and the first response that is not transient decides the call. -/

namespace Vault.Storage.StorageNodeClient

open Vault.Common Vault.Lib Vault.Storage.NodeClient

/-- A transport failure, or one of the answers 502, 503 and 504. -/
def Transport.Transient : Transport → Prop
  | .timeout | .requestError => True
  | .response r => r.status ∈ retryableStatusCodes

/-- `r` is the first outcome that is not transient, after `i` others. -/
def FirstSettled (outcomes : ℕ → Transport) (i : ℕ) (r : Received) : Prop :=
  outcomes i = .response r ∧ r.status ∉ retryableStatusCodes ∧ ∀ j < i, (outcomes j).Transient

lemma FirstSettled.unique {outcomes : ℕ → Transport} {i k : ℕ} {r q : Received} (hr : FirstSettled outcomes i r)
    (hq : FirstSettled outcomes k q) : r = q := by
  have hfirst : ∀ {i k r q}, FirstSettled outcomes i r → FirstSettled outcomes k q → k ≤ i := by
    intro i k r q hr hq
    by_contra hlt
    have htransient := hq.2.2 i (by omega)
    rw [hr.1] at htransient
    exact hr.2.1 htransient
  have heq : i = k := le_antisymm (hfirst hq hr) (hfirst hr hq)
  have hsame := hr.1
  rw [heq, hq.1] at hsame
  cases hsame
  rfl

lemma firstSettled_or_transient (outcomes : ℕ → Transport) (m : ℕ) :
    (∃ i < m, ∃ r, FirstSettled outcomes i r) ∨ ∀ j < m, (outcomes j).Transient := by
  induction m with
  | zero => exact Or.inr (fun j hj => by omega)
  | succ m ih =>
    rcases ih with ⟨i, hi, r, hr⟩ | hall
    · exact Or.inl ⟨i, by omega, r, hr⟩
    · by_cases hm : (outcomes m).Transient
      · refine Or.inr fun j hj => ?_
        rcases Nat.lt_succ_iff_lt_or_eq.mp hj with hj | rfl
        · exact hall j hj
        · exact hm
      · cases ho : outcomes m with
        | timeout => exact absurd (by rw [ho]; trivial) hm
        | requestError => exact absurd (by rw [ho]; trivial) hm
        | response r =>
          rw [ho] at hm
          exact Or.inl ⟨m, by omega, r, ho, hm, hall⟩

def Unavailable {α : Type} (x : Except Failure α) : Prop :=
  ∃ message, x = .error (.client (unavailable message))

section Loops

variable {β α : Type} {m : ℕ} {body : ℕ → Transport → Option β} {finish : β → Except Failure α}
  {read : Received → Except Failure α} {outcomes : ℕ → Transport}

/-- What the two loops have in common: they go on after a transient outcome while attempts are left, stop at
any other response, and report the last transient outcome as unavailability. -/
structure RetriesTransient (m : ℕ) (body : ℕ → Transport → Option β) (finish : β → Except Failure α)
    (read : Received → Except Failure α) : Prop where
  goes : ∀ attempt < m, ∀ t : Transport, t.Transient → body attempt t = none
  stops : ∀ attempt, ∀ r : Received, r.status ∉ retryableStatusCodes →
    ∃ b, body attempt (.response r) = some b ∧ finish b = read r
  gives_up : ∀ t : Transport, t.Transient → ∃ b, body m t = some b ∧ Unavailable (finish b)

lemma RetriesTransient.loop_settled (h : RetriesTransient m body finish read) (exhausted : β) {i : ℕ}
    {r : Received} (hi : i < m) (hr : FirstSettled outcomes i r) :
    finish (attemptLoop body exhausted outcomes (List.range' 1 m) 0).1 = read r ∧
      (attemptLoop body exhausted outcomes (List.range' 1 m) 0).2 = i + 1 := by
  obtain ⟨ho, hstatus, hbefore⟩ := hr
  obtain ⟨b, hb, hread⟩ := h.stops (i + 1) r hstatus
  have hloop : attemptLoop body exhausted outcomes (List.range' 1 m) 0 = (b, i + 1) := by
    apply attemptLoop_of_some hi
    · intro j hj
      exact h.goes (j + 1) (by omega) _ (hbefore j hj)
    · rw [ho, hb]
  rw [hloop]
  exact ⟨hread, rfl⟩

lemma RetriesTransient.loop_transient (h : RetriesTransient m body finish read) (exhausted : β) (hm : 1 ≤ m)
    (hall : ∀ j < m, (outcomes j).Transient) :
    Unavailable (finish (attemptLoop body exhausted outcomes (List.range' 1 m) 0).1) ∧
      (attemptLoop body exhausted outcomes (List.range' 1 m) 0).2 = m := by
  obtain ⟨b, hb, hlast⟩ := h.gives_up _ (hall (m - 1) (by omega))
  have hloop : attemptLoop body exhausted outcomes (List.range' 1 m) 0 = (b, m - 1 + 1) := by
    apply attemptLoop_of_some (by omega)
    · intro j hj
      exact h.goes (j + 1) (by omega) _ (hall j (by omega))
    · rw [Nat.sub_add_cancel hm, hb]
  rw [hloop]
  exact ⟨hlast, Nat.sub_add_cancel hm⟩

end Loops

/-- An error of another kind than unavailability. -/
def Definite {α : Type} (x : Except ClientError α) : Prop := ∀ e, x = .error e → e.kind ≠ .unavailable

namespace Definite

variable {α γ : Type}

lemma ok (a : α) : Definite (.ok a : Except ClientError α) := by
  intro e h
  cases h

lemma error {e : ClientError} (h : e.kind ≠ .unavailable) : Definite (.error e : Except ClientError α) := by
  intro e' he
  cases he
  exact h

lemma protocol (message : String) : Definite (.error (protocolError message) : Except ClientError α) :=
  error (by simp [protocolError])

lemma bind {x : Except ClientError α} {f : α → Except ClientError γ} (hx : Definite x)
    (hf : ∀ a, Definite (f a)) : Definite (x >>= f) := by
  cases x with
  | error e =>
    intro e' he
    cases he
    exact hx e rfl
  | ok a => exact hf a

end Definite

lemma raiseForResponse_transient {status : ℕ} (h : status ∈ retryableStatusCodes) :
    raiseForResponse status = .error (unavailable s!"Storage node returned transient HTTP {status}.") := by
  simp only [retryableStatusCodes, List.mem_cons, List.not_mem_nil, or_false] at h
  rcases h with rfl | rfl | rfl <;> rfl

namespace Retried

variable {α : Type}

lemma read_transient (op : Retried α) {r : Received} (h : r.status ∈ retryableStatusCodes) :
    op.read r = .error (unavailable s!"Storage node returned transient HTTP {r.status}.") := by
  have hraise := raiseForResponse_transient h
  cases op with
  | head k => simp only [read, readHead, hraise]; rfl
  | delete k =>
    have hfound : r.status ≠ 404 := by
      rintro heq
      rw [heq] at h
      revert h
      decide
    simp only [read, readDeleted, if_neg hfound, hraise]
    rfl
  | verify raiseOnInvalid k => simp only [read, readReport, hraise]; rfl
  | health => simp only [read, readHealth, hraise]; rfl
  | stats => simp only [read, readStats, hraise]; rfl

end Retried

lemma retriesTransient_request {α : Type} (config : Config) (op : Retried α) :
    RetriesTransient config.maxAttempts (requestAttempt config op.operation config.maxAttempts)
      (fun answer => (answer.bind op.read).mapError .client) (fun r => (op.read r).mapError .client) := by
  constructor
  · intro attempt hlt t ht
    cases t with
    | timeout => exact if_neg (by omega)
    | requestError => exact if_neg (by omega)
    | response r => exact if_pos ⟨ht, hlt⟩
  · intro attempt r hr
    exact ⟨.ok r, if_neg (fun hgo => hr hgo.1), rfl⟩
  · intro t ht
    cases t with
    | timeout => exact ⟨_, if_pos le_rfl, _, rfl⟩
    | requestError => exact ⟨_, if_pos le_rfl, _, rfl⟩
    | response r =>
      refine ⟨.ok r, if_neg (fun hgo => lt_irrefl _ hgo.2), s!"Storage node returned transient HTTP {r.status}.", ?_⟩
      simp only [Except.bind, op.read_transient ht]
      rfl

section Calls

variable {α : Type} {config : Config} {outcomes : ℕ → Transport}

lemma request_retried (op : Retried α) :
    request config op.operation true outcomes =
      attemptLoop (requestAttempt config op.operation config.maxAttempts)
        (.error (unavailable s!"Storage node request failed during {op.operation}.")) outcomes
        (List.range' 1 config.maxAttempts) 0 := by
  rw [request, if_pos ⟨rfl, op.operation_safe⟩]

lemma request_settled (op : Retried α) {i : ℕ} {r : Received} (hi : i < config.maxAttempts)
    (hr : FirstSettled outcomes i r) :
    ((request config op.operation true outcomes).1.bind op.read).mapError Failure.client =
      (op.read r).mapError .client ∧ (request config op.operation true outcomes).2 = i + 1 := by
  rw [request_retried]
  exact (retriesTransient_request config op).loop_settled _ hi hr

lemma request_transient (op : Retried α) (hall : ∀ j < config.maxAttempts, (outcomes j).Transient) :
    Unavailable (((request config op.operation true outcomes).1.bind op.read).mapError .client) ∧
      (request config op.operation true outcomes).2 = config.maxAttempts := by
  rw [request_retried]
  exact (retriesTransient_request config op).loop_transient _ config.one_le_maxAttempts hall

end Calls

lemma one_le_three : 1 ≤ 3 := by omega

def threeAttempts : Config := ⟨"http://node-a:9000", 3, one_le_three⟩

def reportKey : Key := ⟨"report", "v1"⟩

end Vault.Storage.StorageNodeClient
