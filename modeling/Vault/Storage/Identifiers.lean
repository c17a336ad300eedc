import Vault.Storage.Measurement

/-! The identifiers that the control plane writes into the path of a request: those of 128 bits are told apart by their
text. -/

namespace Vault.Storage

open Vault.Common

lemma hexDigit_mod (n : ℕ) : hexDigit (n % 16) = hexDigit n := by
  rw [hexDigit, hexDigit, Nat.mod_mod]

/-- Without its hyphens an identifier is its digits. -/
lemma filter_toString (u : UUID) : (toString u).toList.filter (· ≠ '-') = u.digits := by
  have hkeep : ∀ l : List Char, (∀ c ∈ l, c ∈ u.digits) → l.filter (· ≠ '-') = l := by
    intro l hl
    apply List.filter_eq_self.mpr
    intro c hc
    have hdigit := mem_digits (hl c hc)
    have hne : c ≠ '-' := by
      rintro rfl
      exact absurd hdigit (by decide)
    simpa using hne
  have hsub : ∀ (i n : ℕ), ∀ c ∈ (u.digits.drop i).take n, c ∈ u.digits :=
    fun i n c hc => List.mem_of_mem_drop (List.mem_of_mem_take hc)
  have hsplit : ∀ i n : ℕ, (u.digits.drop i).take n ++ u.digits.drop (i + n) = u.digits.drop i := by
    intro i n
    rw [← List.drop_drop]
    exact List.take_append_drop n _
  rw [toList_uuid]
  simp only [List.filter_append, List.filter_cons_of_neg, ne_eq, not_true_eq_false, decide_false, Bool.false_eq_true,
    not_false_eq_true]
  rw [hkeep _ fun c hc => List.mem_of_mem_take hc, hkeep _ (hsub 8 4), hkeep _ (hsub 12 4), hkeep _ (hsub 16 4),
    hkeep _ fun c hc => List.mem_of_mem_drop hc]
  rw [List.append_assoc, List.append_assoc, List.append_assoc, hsplit 16 4, hsplit 12 4, hsplit 8 4]
  exact List.take_append_drop 8 _

lemma eq_of_digits (m : ℕ) {a b : ℕ} (ha : a < 16 ^ m) (hb : b < 16 ^ m)
    (h : ∀ j < m, a / 16 ^ j % 16 = b / 16 ^ j % 16) : a = b := by
  induction m generalizing a b with
  | zero => omega
  | succ m ih =>
    have hlow := h 0 (by omega)
    rw [pow_zero, Nat.div_one, Nat.div_one] at hlow
    have hhigh : a / 16 = b / 16 := by
      apply ih
      · rw [Nat.div_lt_iff_lt_mul (by omega), ← pow_succ]
        exact ha
      · rw [Nat.div_lt_iff_lt_mul (by omega), ← pow_succ]
        exact hb
      · intro j hj
        rw [Nat.div_div_eq_div_mul, Nat.div_div_eq_div_mul, ← pow_succ']
        exact h (j + 1) (by omega)
    omega

lemma hexDigit_injective {a b : ℕ} (h : hexDigit a = hexDigit b) : a % 16 = b % 16 := by
  have hvalue : ∀ n : ℕ, hexValue? (hexDigit n) = some ⟨n % 16, Nat.mod_lt n (by omega)⟩ := by
    intro n
    rw [← hexDigit_mod]
    exact hexValue?_hexDigit ⟨n % 16, Nat.mod_lt n (by omega)⟩
  have heq := (hvalue a).symm.trans ((congrArg hexValue? h).trans (hvalue b))
  simpa using heq

/-- A number that a UUID can be. -/
def Genuine (u : UUID) : Prop := u.n < 16 ^ 32

lemma toString_injective {u v : UUID} (hu : Genuine u) (hv : Genuine v) (h : toString u = toString v) : u = v := by
  have hdigits : u.digits = v.digits := by rw [← filter_toString u, h, filter_toString]
  have hn : u.n = v.n := by
    apply eq_of_digits 32 hu hv
    intro j hj
    have hat := congrArg (fun l => l[31 - j]?) hdigits
    simp only [UUID.digits, List.getElem?_map, List.getElem?_range (show 31 - j < 32 by omega), Option.map_some,
      Option.some.injEq] at hat
    have hback : 31 - (31 - j) = j := by omega
    rw [hback] at hat
    exact hexDigit_injective hat
  cases u
  cases v
  exact congrArg UUID.mk hn

end Vault.Storage
