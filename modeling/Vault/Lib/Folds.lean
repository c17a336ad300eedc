import Mathlib.Tactic

/-! Folds that may fail, when what fails and what a step adds depend on the element alone. -/

namespace Vault.Lib

variable {α β : Type} {f : β → α → Option β}

lemma foldlM_eq_none_iff {bad : α → Prop} (h : ∀ b a, f b a = none ↔ bad a) {l : List α} {b : β} :
    l.foldlM f b = none ↔ ∃ a ∈ l, bad a := by
  induction l generalizing b with
  | nil => simp
  | cons a l ih =>
    rw [List.foldlM_cons, List.exists_mem_cons_iff]
    cases hf : f b a with
    | none => simp [(h b a).mp hf]
    | some c =>
      have hgood : ¬bad a := by
        rw [← h b a, hf]
        simp
      simpa [hgood] using ih

/-- What holds of the result is what held at first and what each element adds to it. -/
lemma foldlM_some_iff {Q : β → Prop} {R : α → Prop} (h : ∀ {b a c}, f b a = some c → (Q c ↔ Q b ∧ R a))
    {l : List α} {b c : β} (hl : l.foldlM f b = some c) : Q c ↔ Q b ∧ ∀ a ∈ l, R a := by
  induction l generalizing b with
  | nil =>
    cases hl
    simp
  | cons a l ih =>
    rw [List.foldlM_cons] at hl
    cases hf : f b a with
    | none => simp [hf] at hl
    | some d =>
      rw [hf] at hl
      rw [ih hl, h hf, List.forall_mem_cons, and_assoc]

lemma foldlM_preserves {Q : β → Prop} (h : ∀ {b a c}, f b a = some c → Q b → Q c) {l : List α} {b c : β}
    (hl : l.foldlM f b = some c) (hb : Q b) : Q c := by
  induction l generalizing b with
  | nil =>
    cases hl
    exact hb
  | cons a l ih =>
    rw [List.foldlM_cons] at hl
    cases hf : f b a with
    | none => simp [hf] at hl
    | some d =>
      rw [hf] at hl
      exact ih hl (h hf hb)

end Vault.Lib
