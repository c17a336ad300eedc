import Mathlib.Data.List.Sort
import Mathlib.Order.Basic

/-! Sorted selections. What comes first among the rows that a query keeps does not depend on the order of the rows, when
the order that it sorts by tells the rows of the table apart. -/

namespace Vault.Lib.Sorting

variable {α : Type} {le : α → α → Bool}

/-- What a sorted selection leaves out comes after everything that it takes. -/
lemma le_of_not_mem_take (htrans : ∀ a b c, le a b = true → le b c = true → le a c = true)
    (htotal : ∀ a b, (le a b || le b a) = true) {rows : List α} {k : ℕ} {a b : α}
    (ha : a ∈ (rows.mergeSort le).take k) (hb : b ∈ rows) (hout : b ∉ (rows.mergeSort le).take k) :
    le a b = true := by
  have hsorted := List.pairwise_mergeSort htrans htotal rows
  rw [← List.take_append_drop k (rows.mergeSort le), List.pairwise_append] at hsorted
  have hrest : b ∈ (rows.mergeSort le).drop k := by
    have hmem : b ∈ (rows.mergeSort le).take k ++ (rows.mergeSort le).drop k := by
      rw [List.take_append_drop]
      exact List.mem_mergeSort.mpr hb
    exact (List.mem_append.mp hmem).resolve_left hout
  exact hsorted.2.2 a ha b hrest

section Order

variable (htrans : ∀ a b c, le a b = true → le b c = true → le a c = true) (htotal : ∀ a b, (le a b || le b a) = true)
  {rows : List α} (hanti : ∀ a ∈ rows, ∀ b ∈ rows, le a b = true → le b a = true → a = b)

include htrans htotal hanti

lemma filter_mergeSort (keep : α → Bool) : (rows.mergeSort le).filter keep = (rows.filter keep).mergeSort le := by
  have hperm : ((rows.mergeSort le).filter keep).Perm ((rows.filter keep).mergeSort le) :=
    ((List.mergeSort_perm rows le).filter keep).trans (List.mergeSort_perm _ le).symm
  refine hperm.eq_of_pairwise ?_ ((List.pairwise_mergeSort htrans htotal rows).filter keep)
    (List.pairwise_mergeSort htrans htotal _)
  intro a b ha hb
  exact hanti a (List.mem_mergeSort.mp (List.mem_of_mem_filter ha)) b
    (List.mem_of_mem_filter (List.mem_mergeSort.mp hb))

lemma mergeSort_eq_of_perm {rows' : List α} (hperm : rows'.Perm rows) : rows'.mergeSort le = rows.mergeSort le := by
  have hsorted : (rows'.mergeSort le).Perm (rows.mergeSort le) :=
    (List.mergeSort_perm rows' le).trans (hperm.trans (List.mergeSort_perm rows le).symm)
  refine hsorted.eq_of_pairwise ?_ (List.pairwise_mergeSort htrans htotal rows')
    (List.pairwise_mergeSort htrans htotal rows)
  intro a b ha hb
  exact hanti a (hperm.mem_iff.mp (List.mem_mergeSort.mp ha)) b (List.mem_mergeSort.mp hb)

lemma head?_filter_mergeSort {keep : α → Bool} {a : α} : ((rows.mergeSort le).filter keep).head? = some a ↔
    a ∈ rows ∧ keep a = true ∧ ∀ b ∈ rows, keep b = true → le a b = true := by
  have hsorted : ((rows.mergeSort le).filter keep).Pairwise (fun a b => le a b = true) :=
    (List.pairwise_mergeSort htrans htotal rows).filter keep
  have hmem : ∀ b, b ∈ (rows.mergeSort le).filter keep ↔ b ∈ rows ∧ keep b = true := by simp
  have hrefl : ∀ a, le a a = true := fun a => by simpa using htotal a a
  have hfirst : ∀ b bs, (rows.mergeSort le).filter keep = b :: bs →
      b ∈ rows ∧ keep b = true ∧ ∀ c ∈ rows, keep c = true → le b c = true := by
    intro b bs hbs
    rw [hbs] at hsorted hmem
    obtain ⟨hb, hkeep⟩ := (hmem b).mp List.mem_cons_self
    refine ⟨hb, hkeep, fun c hc hkc => ?_⟩
    rcases List.mem_cons.mp ((hmem c).mpr ⟨hc, hkc⟩) with rfl | hc
    · exact hrefl c
    · exact List.rel_of_pairwise_cons hsorted hc
  constructor
  · intro h
    obtain ⟨bs, hbs⟩ := List.head?_eq_some_iff.mp h
    exact hfirst a bs hbs
  · rintro ⟨ha, hkeep, hle⟩
    cases hlist : (rows.mergeSort le).filter keep with
    | nil =>
      have hin := (hmem a).mpr ⟨ha, hkeep⟩
      rw [hlist] at hin
      cases hin
    | cons b bs =>
      obtain ⟨hb, hkb, hbest⟩ := hfirst b bs hlist
      exact congrArg some (hanti b hb a ha (hbest a ha hkeep) (hle b hb hkb))

lemma head?_mergeSort {a : α} : (rows.mergeSort le).head? = some a ↔ a ∈ rows ∧ ∀ b ∈ rows, le a b = true := by
  have h : ((rows.mergeSort le).filter fun _ => true).head? = some a ↔
      a ∈ rows ∧ true = true ∧ ∀ b ∈ rows, true = true → le a b = true := head?_filter_mergeSort htrans htotal hanti
  simpa using h

end Order

section Lexicographic

variable {κ τ : Type} [LinearOrder κ] [LinearOrder τ] {key : α → κ} {tie : α → τ} {a b c : α}

/-- The larger key first, and the smaller name among equal keys. -/
def LargerFirst (key : α → κ) (tie : α → τ) (a b : α) : Prop := key b < key a ∨ key a = key b ∧ tie a ≤ tie b

lemma LargerFirst.trans (hab : LargerFirst key tie a b) (hbc : LargerFirst key tie b c) :
    LargerFirst key tie a c := by
  rcases hab with hab | ⟨hab, hname⟩
  · rcases hbc with hbc | ⟨hbc, -⟩
    · exact Or.inl (hbc.trans hab)
    · exact Or.inl (hbc ▸ hab)
  · rcases hbc with hbc | ⟨hbc, hname'⟩
    · exact Or.inl (hab ▸ hbc)
    · exact Or.inr ⟨hab.trans hbc, hname.trans hname'⟩

lemma largerFirst_total (key : α → κ) (tie : α → τ) (a b : α) :
    LargerFirst key tie a b ∨ LargerFirst key tie b a := by
  rcases lt_trichotomy (key a) (key b) with h | h | h
  · exact Or.inr (Or.inl h)
  · exact (le_total (tie a) (tie b)).imp (fun hn => Or.inr ⟨h, hn⟩) fun hn => Or.inr ⟨h.symm, hn⟩
  · exact Or.inl (Or.inl h)

lemma LargerFirst.antisymm (hab : LargerFirst key tie a b) (hba : LargerFirst key tie b a) : tie a = tie b := by
  rcases hab with hab | ⟨hab, hname⟩
  · rcases hba with hba | ⟨hba, -⟩
    · exact absurd hab (lt_asymm hba)
    · exact absurd hba hab.ne
  · rcases hba with hba | ⟨-, hname'⟩
    · exact absurd hab hba.ne
    · exact le_antisymm hname hname'

lemma LargerFirst.strict (hab : LargerFirst key tie a b) (hne : tie a ≠ tie b) :
    key b < key a ∨ key a = key b ∧ tie a < tie b :=
  hab.imp_right fun h => ⟨h.1, lt_of_le_of_ne h.2 hne⟩

end Lexicographic

end Vault.Lib.Sorting
