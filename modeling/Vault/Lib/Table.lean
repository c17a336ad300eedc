import Mathlib.Tactic

/-! Tables as lists of keyed rows: lookup by key, amendment and removal of the rows with a key. -/

namespace Vault.Lib.Table

variable {ρ κ : Type} [DecidableEq κ] (key : ρ → κ)

def lookup (k : κ) (rows : List ρ) : Option ρ := rows.find? (fun r => key r = k)

def amend (k : κ) (f : ρ → ρ) (rows : List ρ) : List ρ :=
  rows.map (fun r => if key r = k then f r else r)

def remove (k : κ) (rows : List ρ) : List ρ := rows.filter (fun r => key r ≠ k)

variable {key}

lemma lookup_mem {k : κ} {rows : List ρ} {r : ρ} (h : lookup key k rows = some r) : r ∈ rows :=
  List.mem_of_find?_eq_some h

lemma lookup_key {k : κ} {rows : List ρ} {r : ρ} (h : lookup key k rows = some r) : key r = k := by
  simpa using List.find?_some h

lemma lookup_eq_none {k : κ} {rows : List ρ} :
    lookup key k rows = none ↔ ∀ r ∈ rows, key r ≠ k := by
  simp [lookup]

omit [DecidableEq κ] in
lemma eq_of_key {rows : List ρ} (h : (rows.map key).Nodup) {r s : ρ} (hr : r ∈ rows) (hs : s ∈ rows)
    (hk : key r = key s) : r = s :=
  List.inj_on_of_nodup_map h hr hs hk

lemma lookup_of_mem {rows : List ρ} (h : (rows.map key).Nodup) {r : ρ} (hr : r ∈ rows) :
    lookup key (key r) rows = some r := by
  cases hl : lookup key (key r) rows with
  | none => exact absurd rfl (lookup_eq_none.mp hl r hr)
  | some s => exact congrArg some (eq_of_key h (lookup_mem hl) hr (lookup_key hl))

lemma lookup_iff {rows : List ρ} (h : (rows.map key).Nodup) {k : κ} {r : ρ} :
    lookup key k rows = some r ↔ r ∈ rows ∧ key r = k := by
  constructor
  · intro hl
    exact ⟨lookup_mem hl, lookup_key hl⟩
  · rintro ⟨hr, rfl⟩
    exact lookup_of_mem h hr

lemma mem_amend {k : κ} {f : ρ → ρ} {rows : List ρ} {r : ρ} :
    r ∈ amend key k f rows ↔ ∃ s ∈ rows, (if key s = k then f s else s) = r := by
  simp [amend]

lemma mem_remove {k : κ} {rows : List ρ} {r : ρ} :
    r ∈ remove key k rows ↔ r ∈ rows ∧ key r ≠ k := by
  simp [remove]

@[simp] lemma length_amend (k : κ) (f : ρ → ρ) (rows : List ρ) :
    (amend key k f rows).length = rows.length := by
  simp [amend]

lemma amend_of_absent {k : κ} {f : ρ → ρ} {rows : List ρ} (h : ∀ r ∈ rows, key r ≠ k) :
    amend key k f rows = rows := by
  rw [amend, List.map_congr_left fun r hr => if_neg (h r hr), List.map_id']

lemma amend_fixed {rows : List ρ} (h : (rows.map key).Nodup) {r : ρ} (hr : r ∈ rows) {f : ρ → ρ} (hf : f r = r) :
    amend key (key r) f rows = rows := by
  refine (List.map_congr_left fun s hs => ?_).trans (List.map_id' rows)
  by_cases hk : key s = key r
  · obtain rfl := eq_of_key h hs hr hk
    rw [if_pos rfl, hf]
  · exact if_neg hk

/-- When the keys are distinct, the amendment touches one row. -/
lemma amend_amend {k : κ} {f g : ρ → ρ} (hf : ∀ r, key (f r) = key r) (rows : List ρ) :
    amend key k g (amend key k f rows) = amend key k (g ∘ f) rows := by
  simp only [amend, List.map_map]
  refine List.map_congr_left fun r _ => ?_
  by_cases hr : key r = k
  · simp [hr, hf]
  · simp [hr]

lemma amend_middle {f : ρ → ρ} {rows rows' : List ρ} {r : ρ} (h : ((rows ++ r :: rows').map key).Nodup) :
    amend key (key r) f (rows ++ r :: rows') = rows ++ f r :: rows' := by
  rw [List.map_append, List.map_cons, List.nodup_append, List.nodup_cons] at h
  obtain ⟨-, ⟨hlater, -⟩, hbefore⟩ := h
  have hrows : amend key (key r) f rows = rows := amend_of_absent fun s hs =>
    hbefore _ (List.mem_map_of_mem hs) _ List.mem_cons_self
  have hrows' : amend key (key r) f rows' = rows' := amend_of_absent fun s hs he =>
    hlater (he ▸ List.mem_map_of_mem hs)
  rw [amend] at hrows hrows' ⊢
  rw [List.map_append, List.map_cons, hrows, hrows', if_pos rfl]

lemma map_amend {β : Type} {k : κ} {f : ρ → ρ} (g : ρ → β) (hg : ∀ r, g (f r) = g r)
    (rows : List ρ) : (amend key k f rows).map g = rows.map g := by
  simp only [amend, List.map_map, Function.comp_def]
  congr 1
  funext r
  split_ifs
  · exact hg r
  · rfl

lemma nodup_amend {β : Type} {k : κ} {f : ρ → ρ} {g : ρ → β} (hg : ∀ r, g (f r) = g r)
    {rows : List ρ} (h : (rows.map g).Nodup) : ((amend key k f rows).map g).Nodup := by
  rw [map_amend g hg]
  exact h

lemma filter_amend {k : κ} {f : ρ → ρ} {p : ρ → Bool} (hp : ∀ r, p (f r) = p r) (rows : List ρ) :
    (amend key k f rows).filter p = amend key k f (rows.filter p) := by
  simp only [amend, List.filter_map, Function.comp_def]
  congr 1
  apply List.filter_congr
  intro r _
  split_ifs
  · exact hp r
  · rfl

lemma lookup_amend {k j : κ} {f : ρ → ρ} (hf : ∀ r, key (f r) = key r) (rows : List ρ) :
    lookup key j (amend key k f rows) =
      (lookup key j rows).map (fun r => if key r = k then f r else r) := by
  simp only [lookup, amend, List.find?_map, Function.comp_def]
  congr 2
  funext r
  split_ifs <;> simp [hf]

lemma lookup_map {k : κ} {f : ρ → ρ} (hf : ∀ r, key (f r) = key r) (rows : List ρ) :
    lookup key k (rows.map f) = (lookup key k rows).map f := by
  simp only [lookup, List.find?_map, Function.comp_def, hf]

lemma lookup_amend_self {k : κ} {f : ρ → ρ} (hf : ∀ r, key (f r) = key r) {rows : List ρ} {r : ρ}
    (h : lookup key k rows = some r) : lookup key k (amend key k f rows) = some (f r) := by
  rw [lookup_amend hf, h]
  simp [lookup_key h]

lemma lookup_amend_ne {k j : κ} {f : ρ → ρ} (hf : ∀ r, key (f r) = key r) (rows : List ρ)
    (hj : j ≠ k) : lookup key j (amend key k f rows) = lookup key j rows := by
  rw [lookup_amend hf]
  cases h : lookup key j rows with
  | none => rfl
  | some r => simp [lookup_key h, hj]

lemma lookup_append {k : κ} (rows rows' : List ρ) :
    lookup key k (rows ++ rows') = (lookup key k rows).or (lookup key k rows') := by
  simp [lookup]

lemma lookup_append_of_some {k : κ} {rows : List ρ} {r : ρ} (h : lookup key k rows = some r)
    (rows' : List ρ) : lookup key k (rows ++ rows') = some r := by
  rw [lookup_append, h]
  rfl

lemma lookup_concat_self {rows : List ρ} {r : ρ} (h : lookup key (key r) rows = none) :
    lookup key (key r) (rows ++ [r]) = some r := by
  rw [lookup_append, h]
  simp [lookup]

lemma lookup_concat_of_ne {k : κ} {rows : List ρ} {r : ρ} (h : key r ≠ k) :
    lookup key k (rows ++ [r]) = lookup key k rows := by
  rw [lookup_append]
  simp [lookup, h]

lemma nodup_remove {β : Type} {g : ρ → β} {rows : List ρ} (h : (rows.map g).Nodup) (k : κ) :
    ((remove key k rows).map g).Nodup :=
  h.sublist (List.filter_sublist.map g)

lemma nodup_append_fresh {β : Type} {g : ρ → β} {rows : List ρ} {r : ρ} (h : (rows.map g).Nodup)
    (hr : ∀ s ∈ rows, g s ≠ g r) : ((rows ++ [r]).map g).Nodup := by
  rw [List.map_append, List.nodup_append]
  refine ⟨h, by simp, ?_⟩
  rintro _ ha b hb rfl
  obtain ⟨s, hs, he⟩ := List.mem_map.mp ha
  simp only [List.map_cons, List.map_nil, List.mem_singleton] at hb
  exact hr s hs (he.trans hb)

lemma remove_of_not_mem {k : κ} {rows : List ρ} (h : ∀ r ∈ rows, key r ≠ k) : remove key k rows = rows := by
  simpa [remove] using h

lemma lookup_remove_ne {k j : κ} (hj : j ≠ k) (rows : List ρ) :
    lookup key j (remove key k rows) = lookup key j rows := by
  simp only [lookup, remove, List.find?_filter]
  congr 1
  funext r
  by_cases hr : key r = j <;> simp [hr, hj]

lemma lookup_remove_of_none {k j : κ} {rows : List ρ} (h : lookup key j rows = none) :
    lookup key j (remove key k rows) = none :=
  lookup_eq_none.mpr fun r hr => lookup_eq_none.mp h r (mem_remove.mp hr).1

lemma amend_of_not_mem {k : κ} {f : ρ → ρ} {rows : List ρ} (h : ∀ r ∈ rows, key r ≠ k) :
    amend key k f rows = rows := by
  refine (List.map_congr_left fun r hr => ?_).trans (List.map_id _)
  exact if_neg (h r hr)

lemma perm_cons_remove {rows : List ρ} (h : (rows.map key).Nodup) {r : ρ} (hr : r ∈ rows) :
    rows.Perm (r :: remove key (key r) rows) := by
  induction rows with
  | nil => cases hr
  | cons s rows ih =>
    obtain ⟨hs, hrows⟩ := List.nodup_cons.mp h
    have hne : ∀ q ∈ rows, key q ≠ key s := fun q hq he => hs (he ▸ List.mem_map_of_mem hq)
    rcases List.mem_cons.mp hr with rfl | hr
    · rw [show remove key (key r) (r :: rows) = remove key (key r) rows by simp [remove],
        remove_of_not_mem hne]
    · have hsr : key s ≠ key r := fun he => hne r hr he.symm
      rw [show remove key (key r) (s :: rows) = s :: remove key (key r) rows by simp [remove, hsr]]
      exact ((ih hrows hr).cons s).trans (List.Perm.swap r s _)

lemma amend_perm {rows : List ρ} (h : (rows.map key).Nodup) {r : ρ} (hr : r ∈ rows) (f : ρ → ρ) :
    (amend key (key r) f rows).Perm (f r :: remove key (key r) rows) := by
  have hperm := (perm_cons_remove h hr).map (fun s => if key s = key r then f s else s)
  rw [List.map_cons, if_pos rfl] at hperm
  refine hperm.trans (List.Perm.of_eq (congrArg _ ?_))
  exact amend_of_not_mem fun s hs => (mem_remove.mp hs).2

lemma mem_amend_iff {rows : List ρ} (h : (rows.map key).Nodup) {r : ρ} (hr : r ∈ rows) {f : ρ → ρ} {s : ρ} :
    s ∈ amend key (key r) f rows ↔ s = f r ∨ s ∈ rows ∧ key s ≠ key r := by
  rw [(amend_perm h hr f).mem_iff, List.mem_cons, mem_remove]

end Vault.Lib.Table
