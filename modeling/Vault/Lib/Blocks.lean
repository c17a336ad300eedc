import Mathlib.Tactic

/-! A stream that arrives in pieces of any size is cut into blocks of one size, and a block is read
back in pieces. What the cutting keeps is the concatenation. -/

namespace Vault.Lib

variable {α : Type}

/-- The blocks that are complete, and the one that is being filled. -/
structure Blocks (α : Type) where
  closed : List (List α) := []
  current : List α := []
  deriving DecidableEq, Repr

namespace Blocks

variable (n : ℕ)

def contents (b : Blocks α) : List α := b.closed.flatten ++ b.current

def push (b : Blocks α) (piece : List α) : Blocks α :=
  if (b.current ++ piece).length = n then ⟨b.closed ++ [b.current ++ piece], []⟩
  else ⟨b.closed, b.current ++ piece⟩

/-- One piece of input, of which each round takes what still fits into the current block. -/
def absorb : ℕ → Blocks α → List α → Blocks α
  | 0, b, _ => b
  | fuel + 1, b, incoming =>
    if incoming.isEmpty then b
    else absorb fuel (b.push n (incoming.take (n - b.current.length)))
      (incoming.drop (n - b.current.length))

def feed (b : Blocks α) (incoming : List α) : Blocks α := absorb n incoming.length b incoming

def feedAll (b : Blocks α) (pieces : List (List α)) : Blocks α := pieces.foldl (feed n) b

def finish (b : Blocks α) : List (List α) :=
  b.closed ++ if b.current.isEmpty then [] else [b.current]

structure Regular (b : Blocks α) : Prop where
  closed : ∀ c ∈ b.closed, c.length = n
  current : b.current.length < n

variable {n}

lemma Regular.pos {b : Blocks α} (h : b.Regular n) : 0 < n := Nat.zero_lt_of_lt h.current

lemma regular_empty (hn : 0 < n) : ({} : Blocks α).Regular n := ⟨by simp, hn⟩

lemma contents_push (b : Blocks α) (piece : List α) :
    (b.push n piece).contents = b.contents ++ piece := by
  unfold push contents
  split_ifs <;> simp

lemma Regular.push {b : Blocks α} (h : b.Regular n) {piece : List α}
    (hp : piece.length ≤ n - b.current.length) : (b.push n piece).Regular n := by
  have hc := h.current
  unfold Blocks.push
  split_ifs with hfull
  · refine ⟨?_, h.pos⟩
    intro c hm
    rcases List.mem_append.mp hm with hm | hm
    · exact h.closed c hm
    · rw [List.mem_singleton.mp hm]
      exact hfull
  · refine ⟨h.closed, lt_of_le_of_ne ?_ hfull⟩
    rw [List.length_append]
    omega

lemma absorb_spec {fuel : ℕ} {b : Blocks α} {incoming : List α} (h : b.Regular n)
    (hf : incoming.length ≤ fuel) :
    (absorb n fuel b incoming).Regular n ∧
      (absorb n fuel b incoming).contents = b.contents ++ incoming := by
  induction fuel generalizing b incoming with
  | zero =>
    obtain rfl := List.length_eq_zero_iff.mp (Nat.le_zero.mp hf)
    exact ⟨h, by simp [absorb]⟩
  | succ fuel ih =>
    cases incoming with
    | nil => exact ⟨h, by simp [absorb]⟩
    | cons a rest =>
      have hroom : 0 < n - b.current.length := Nat.sub_pos_of_lt h.current
      have hrest : ((a :: rest).drop (n - b.current.length)).length ≤ fuel := by
        simp only [List.length_cons, List.length_drop] at hf ⊢
        omega
      have hfits : ((a :: rest).take (n - b.current.length)).length ≤ n - b.current.length :=
        List.length_take_le _ _
      obtain ⟨hr, hc⟩ := ih (h.push hfits) hrest
      refine ⟨hr, hc.trans ?_⟩
      rw [contents_push, List.append_assoc, List.take_append_drop]

lemma Regular.feed {b : Blocks α} (h : b.Regular n) (incoming : List α) : (b.feed n incoming).Regular n :=
  (absorb_spec h le_rfl).1

lemma contents_feed {b : Blocks α} (h : b.Regular n) (incoming : List α) :
    (b.feed n incoming).contents = b.contents ++ incoming :=
  (absorb_spec h le_rfl).2

lemma feedAll_spec {b : Blocks α} (h : b.Regular n) (pieces : List (List α)) :
    (b.feedAll n pieces).Regular n ∧ (b.feedAll n pieces).contents = b.contents ++ pieces.flatten := by
  induction pieces generalizing b with
  | nil => exact ⟨h, by simp [feedAll]⟩
  | cons piece pieces ih =>
    obtain ⟨hr, hc⟩ := ih (h.feed piece)
    refine ⟨hr, hc.trans ?_⟩
    rw [contents_feed h, List.append_assoc]
    rfl

lemma flatten_finish (b : Blocks α) : b.finish.flatten = b.contents := by
  unfold finish contents
  cases b.current <;> simp

/-- Every block but the last is full, and the last is not empty. -/
structure Cut (n : ℕ) (blocks : List (List α)) : Prop where
  full : ∀ i, i + 1 < blocks.length → ∀ c ∈ blocks[i]?, c.length = n
  last : ∀ i, i + 1 = blocks.length → ∀ c ∈ blocks[i]?, 0 < c.length ∧ c.length ≤ n

lemma Regular.cut {b : Blocks α} (h : b.Regular n) : Cut n b.finish := by
  have hc := h.current
  unfold finish
  cases hcur : b.current with
  | nil =>
    have hfull : ∀ (i : ℕ) (c : List α), c ∈ (b.closed ++ [])[i]? → c.length = n := by
      intro i c hm
      rw [List.append_nil] at hm
      exact h.closed c (List.mem_of_getElem? hm)
    exact ⟨fun i _ c hm => hfull i c hm, fun i _ c hm => by
      rw [hfull i c hm]
      exact ⟨h.pos, le_rfl⟩⟩
  | cons a rest =>
    rw [hcur] at hc
    simp only [List.isEmpty_cons, Bool.false_eq_true, if_false]
    constructor
    · intro i hi c hm
      rw [List.length_append, List.length_singleton, Nat.add_lt_add_iff_right] at hi
      rw [List.getElem?_append_left hi] at hm
      exact h.closed c (List.mem_of_getElem? hm)
    · intro i hi c hm
      rw [List.length_append, List.length_singleton, Nat.add_right_cancel_iff] at hi
      subst hi
      simp only [List.getElem?_concat_length, Option.mem_def, Option.some.injEq] at hm
      subst hm
      exact ⟨by simp, hc.le⟩

lemma Cut.tail {c : List α} {rest : List (List α)} (h : Cut n (c :: rest)) : Cut n rest := by
  constructor
  · intro i hi d hm
    exact h.full (i + 1) (by simpa using hi) d (by simpa using hm)
  · intro i hi d hm
    exact h.last (i + 1) (by simpa using hi) d (by simpa using hm)

lemma Cut.head {c : List α} {rest : List (List α)} (h : Cut n (c :: rest)) (hr : rest ≠ []) : c.length = n :=
  h.full 0 (by simpa using List.length_pos_iff.mpr hr) c rfl

/-- There is one way to cut: into the slices at the multiples of the block size. -/
lemma Cut.getElem?_eq {blocks : List (List α)} (hn : 0 < n) (h : Cut n blocks) :
    blocks.length = (blocks.flatten.length + n - 1) / n ∧
      ∀ i, ∀ c ∈ blocks[i]?, c = (blocks.flatten.drop (i * n)).take n := by
  induction blocks with
  | nil => exact ⟨by simp [Nat.div_eq_of_lt (Nat.sub_lt hn one_pos)], by simp⟩
  | cons b rest ih =>
    cases hrest : rest with
    | nil =>
      subst hrest
      obtain ⟨hpos, hle⟩ := h.last 0 rfl b rfl
      constructor
      · have hone : (b.length + n - 1) / n = 1 :=
          Nat.div_eq_of_lt_le (by omega) (by omega)
        simpa using hone.symm
      · intro i c hc
        cases i with
        | zero =>
          obtain rfl : b = c := by simpa using hc
          simp [List.take_of_length_le hle]
        | succ i => simp at hc
    | cons c' rest' =>
      obtain ⟨hlength, hslices⟩ := ih h.tail
      have hb : b.length = n := h.head (by simp [hrest])
      rw [← hrest]
      constructor
      · have hsum : n + rest.flatten.length + n - 1 = (rest.flatten.length + n - 1) + n := by omega
        rw [List.length_cons, hlength, List.flatten_cons, List.length_append, hb, hsum,
          Nat.add_div_right _ hn]
      · intro i c hc
        cases i with
        | zero =>
          obtain rfl : b = c := by simpa using hc
          simp [hb]
        | succ i =>
          have hskip : (i + 1) * n = b.length + i * n := by rw [hb]; ring
          rw [hslices i c (by simpa using hc), List.flatten_cons, hskip, List.drop_length_add_append]

end Blocks

/-- A file read with a buffer of `n` bytes. -/
def readPieces (n : ℕ) : ℕ → List α → List (List α)
  | 0, _ => []
  | fuel + 1, l => if l.isEmpty then [] else l.take n :: readPieces n fuel (l.drop n)

lemma flatten_readPieces {n fuel : ℕ} (hn : 0 < n) {l : List α} (h : l.length ≤ fuel) :
    (readPieces n fuel l).flatten = l := by
  induction fuel generalizing l with
  | zero =>
    obtain rfl := List.length_eq_zero_iff.mp (Nat.le_zero.mp h)
    rfl
  | succ fuel ih =>
    cases l with
    | nil => rfl
    | cons a l =>
      have hrest : ((a :: l).drop n).length ≤ fuel := by
        simp only [List.length_cons, List.length_drop] at h ⊢
        omega
      have hflat : (readPieces n (fuel + 1) (a :: l)).flatten =
          (a :: l).take n ++ (readPieces n fuel ((a :: l).drop n)).flatten := rfl
      rw [hflat, ih hrest, List.take_append_drop]

end Vault.Lib
