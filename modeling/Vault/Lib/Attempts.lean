import Mathlib.Data.List.Range
import Mathlib.Tactic

/-! A loop over attempts, each of which takes the next outcome of the outside world. -/

namespace Vault.Lib

variable {τ α : Type}

/-- The body leaves the loop with `some`, and goes to the next attempt with `none`; `exhausted` is what
follows the loop. The second component counts the outcomes taken. -/
def attemptLoop (body : ℕ → τ → Option α) (exhausted : α) (outcomes : ℕ → τ) : List ℕ → ℕ → α × ℕ
  | [], taken => (exhausted, taken)
  | attempt :: rest, taken =>
    match body attempt (outcomes taken) with
    | some a => (a, taken + 1)
    | none => attemptLoop body exhausted outcomes rest (taken + 1)

variable {body : ℕ → τ → Option α} {exhausted : α} {outcomes : ℕ → τ}

lemma attemptLoop_cons_some {attempt taken : ℕ} {rest : List ℕ} {a : α}
    (h : body attempt (outcomes taken) = some a) :
    attemptLoop body exhausted outcomes (attempt :: rest) taken = (a, taken + 1) := by
  rw [attemptLoop, h]

lemma attemptLoop_cons_none {attempt taken : ℕ} {rest : List ℕ}
    (h : body attempt (outcomes taken) = none) :
    attemptLoop body exhausted outcomes (attempt :: rest) taken =
      attemptLoop body exhausted outcomes rest (taken + 1) := by
  rw [attemptLoop, h]

lemma attemptLoop_range'_of_some {n k i : ℕ} {a : α} (hi : i < n)
    (hgo : ∀ j < i, body (k + j + 1) (outcomes (k + j)) = none)
    (hstop : body (k + i + 1) (outcomes (k + i)) = some a) :
    attemptLoop body exhausted outcomes (List.range' (k + 1) n) k = (a, k + i + 1) := by
  induction n generalizing k i with
  | zero => omega
  | succ n ih =>
    rw [List.range'_succ]
    cases i with
    | zero => exact attemptLoop_cons_some hstop
    | succ i =>
      have hfirst : body (k + 1) (outcomes k) = none := hgo 0 (by omega)
      rw [attemptLoop_cons_none hfirst, ih (i := i) (by omega)]
      · congr 1
        omega
      · intro j hj
        have hnext := hgo (j + 1) (by omega)
        rwa [← Nat.add_assoc, Nat.add_right_comm k j 1] at hnext
      · rwa [← Nat.add_assoc, Nat.add_right_comm k i 1] at hstop

/-- The loop ends at the first attempt whose body leaves it. -/
lemma attemptLoop_of_some {n i : ℕ} {a : α} (hi : i < n) (hgo : ∀ j < i, body (j + 1) (outcomes j) = none)
    (hstop : body (i + 1) (outcomes i) = some a) :
    attemptLoop body exhausted outcomes (List.range' 1 n) 0 = (a, i + 1) := by
  have h : attemptLoop body exhausted outcomes (List.range' (0 + 1) n) 0 = (a, 0 + i + 1) := by
    apply attemptLoop_range'_of_some hi
    · simpa only [Nat.zero_add] using hgo
    · simpa only [Nat.zero_add] using hstop
  simpa only [Nat.zero_add] using h

end Vault.Lib
