import Mathlib.Tactic

/-! The names that `StorageEngine` gives to directories and files, and the identifiers that it accepts.
A name found on disk is text with possibly some bytes that are no UTF-8, which Python shows as
surrogate escapes. `str.isdigit` also holds for digits that `int` does not read, such as superscripts. -/

namespace Vault.Storage

abbrev Text := List (Char ⊕ UInt8)

def Text.ofString (s : String) : Text := s.toList.map Sum.inl

def Text.Encodable (t : Text) : Prop := ∀ c ∈ t, c.isLeft = true

instance (t : Text) : Decidable t.Encodable := inferInstanceAs (Decidable (∀ c ∈ t, _))

def maxIdentifierLength : ℕ := 128

def ValidId (s : String) : Prop :=
  s ≠ "" ∧ s.toList.length ≤ maxIdentifierLength ∧ s ≠ "." ∧ s ≠ ".." ∧
    '/' ∉ s.toList ∧ '\\' ∉ s.toList ∧ '\x00' ∉ s.toList

instance (s : String) : Decidable (ValidId s) := inferInstanceAs (Decidable (_ ∧ _))

def stagingName (versionId uuid : String) : String := "." ++ versionId ++ "." ++ uuid ++ ".upload"

def EndsUpload (name : String) : Prop := ".upload".toList <:+ name.toList

instance (name : String) : Decidable (EndsUpload name) := inferInstanceAs (Decidable (_ <:+ _))

/-- The pattern `.*.upload`: a dot, anything, and `.upload`. -/
def MatchesStaging (name : String) : Prop :=
  name.toList.head? = some '.' ∧ ".upload".toList <:+ name.toList.tail

instance (name : String) : Decidable (MatchesStaging name) := inferInstanceAs (Decidable (_ ∧ _))

def chunkPrefix : List Char := "chunk-".toList

def chunkDigits (index : ℕ) : List Char :=
  List.replicate (6 - (Nat.toDigits 10 index).length) '0' ++ Nat.toDigits 10 index

def chunkName (index : ℕ) : Text := (chunkPrefix ++ chunkDigits index).map Sum.inl

def Text.HasChunkPrefix (name : Text) : Prop := chunkPrefix.map Sum.inl <+: name

instance (name : Text) : Decidable name.HasChunkPrefix := inferInstanceAs (Decidable (_ <+: _))

/-- The code points of the zeros of the decimal digits. -/
def decimalZeros : List ℕ :=
  [48, 1632, 1776, 1984, 2406, 2534, 2662, 2790, 2918, 3046, 3174, 3302, 3430, 3558, 3664, 3792, 3872,
    4160, 4240, 6112, 6160, 6470, 6608, 6784, 6800, 6992, 7088, 7232, 7248, 42528, 43216, 43264, 43472,
    43504, 43600, 44016, 65296, 66720, 68912, 69734, 69872, 69942, 70096, 70384, 70736, 70864, 71248,
    71360, 71472, 71904, 72016, 72784, 73040, 73120, 73552, 92768, 92864, 93008, 120782, 120792, 120802,
    120812, 120822, 123200, 123632, 124144, 125264, 130032]

/-- The other code points for which `str.isdigit` holds, as ranges. -/
def otherDigits : List (ℕ × ℕ) :=
  [(178, 179), (185, 185), (4969, 4977), (6618, 6618), (8304, 8304), (8308, 8313), (8320, 8329),
    (9312, 9320), (9332, 9340), (9352, 9360), (9450, 9450), (9461, 9469), (9471, 9471), (10102, 10110),
    (10112, 10120), (10122, 10130), (68160, 68163), (69216, 69224), (69714, 69722), (127232, 127242)]

def decimalValue? (c : Char) : Option ℕ :=
  (decimalZeros.find? (fun z => z ≤ c.toNat ∧ c.toNat < z + 10)).map (c.toNat - ·)

def isDigit : Char ⊕ UInt8 → Bool
  | .inl c => (decimalValue? c).isSome || otherDigits.any (fun r => r.1 ≤ c.toNat && c.toNat ≤ r.2)
  | .inr _ => false

def decimal? : Char ⊕ UInt8 → Option ℕ
  | .inl c => decimalValue? c
  | .inr _ => none

def parseDecimal (acc : ℕ) : Text → Option ℕ
  | [] => some acc
  | c :: cs =>
    match decimal? c with
    | some d => parseDecimal (10 * acc + d) cs
    | none => none

/-- `none` stands for the `ValueError` of `int`, `some none` for a name that is no chunk name. -/
def parseChunkIndex (name : Text) : Option (Option ℕ) :=
  let suffix := name.drop chunkPrefix.length
  if suffix.length = 6 ∧ suffix.all isDigit then (parseDecimal 0 suffix).map some else some none

lemma decimalValue?_of_ascii {c : Char} (h : c.isDigit = true) : decimalValue? c = some (c.toNat - 48) := by
  have hc : 48 ≤ c.toNat ∧ c.toNat < 58 := by
    simp only [Char.isDigit, Bool.and_eq_true, decide_eq_true_eq, ge_iff_le, UInt32.le_iff_toNat_le] at h
    exact ⟨h.1, Nat.lt_succ_of_le h.2⟩
  simp [decimalValue?, decimalZeros, hc.1, hc.2]

lemma isDigit_chunkDigits {index : ℕ} {c : Char} (h : c ∈ chunkDigits index) : c.isDigit = true := by
  rcases List.mem_append.mp h with h | h
  · rw [List.eq_of_mem_replicate h]
    rfl
  · exact Nat.isDigit_of_mem_toDigits (by decide) (by decide) h

lemma ofDigitChars_chunkDigits (index : ℕ) : Nat.ofDigitChars 10 (chunkDigits index) 0 = index := by
  simp [chunkDigits, Nat.ofDigitChars_append]

lemma length_chunkDigits {index : ℕ} (h : index < 1000000) : (chunkDigits index).length = 6 := by
  have hle : (Nat.toDigits 10 index).length ≤ 6 :=
    (Nat.length_toDigits_le_iff (by decide) (by decide)).mpr h
  rw [chunkDigits, List.length_append, List.length_replicate]
  omega

lemma chunkName_injective : Function.Injective chunkName := by
  intro i j h
  have hc := List.append_cancel_left (List.map_injective_iff.mpr Sum.inl_injective h)
  rw [← ofDigitChars_chunkDigits i, hc, ofDigitChars_chunkDigits]

lemma hasChunkPrefix_chunkName (index : ℕ) : (chunkName index).HasChunkPrefix := by
  rw [Text.HasChunkPrefix, chunkName, List.map_append]
  exact List.prefix_append _ _

lemma parseDecimal_ascii {cs : List Char} (h : ∀ c ∈ cs, c.isDigit = true) (acc : ℕ) :
    parseDecimal acc (cs.map Sum.inl) = some (Nat.ofDigitChars 10 cs acc) := by
  induction cs generalizing acc with
  | nil => rfl
  | cons c cs ih =>
    have hc : decimal? (Sum.inl c) = some (c.toNat - 48) := decimalValue?_of_ascii (h c (by simp))
    simp only [List.map_cons, parseDecimal, hc]
    rw [ih fun d hd => h d (by simp [hd]), Nat.ofDigitChars_cons]
    rfl

lemma parseChunkIndex_chunkName {index : ℕ} (h : index < 1000000) :
    parseChunkIndex (chunkName index) = some (some index) := by
  have hsuffix : (chunkName index).drop chunkPrefix.length = (chunkDigits index).map Sum.inl := by
    rw [chunkName, List.map_append, List.drop_left' (by simp)]
  have hdigits : ((chunkDigits index).map (Sum.inl : Char → Char ⊕ UInt8)).all isDigit = true := by
    rw [List.all_map, List.all_eq_true]
    intro c hc
    simp [isDigit, decimalValue?_of_ascii (isDigit_chunkDigits hc)]
  have hlength : ((chunkDigits index).map (Sum.inl : Char → Char ⊕ UInt8)).length = 6 := by
    rw [List.length_map, length_chunkDigits h]
  simp only [parseChunkIndex, hsuffix]
  rw [if_pos ⟨hlength, hdigits⟩, parseDecimal_ascii fun c hc => isDigit_chunkDigits hc,
    ofDigitChars_chunkDigits]
  rfl

lemma matchesStaging_stagingName (versionId uuid : String) : MatchesStaging (stagingName versionId uuid) := by
  have hlist : (stagingName versionId uuid).toList =
      '.' :: (versionId.toList ++ '.' :: uuid.toList) ++ ".upload".toList := by
    simp [stagingName]
  refine ⟨by rw [hlist]; rfl, ?_⟩
  rw [hlist]
  exact List.suffix_append _ _

lemma MatchesStaging.endsUpload {name : String} (h : MatchesStaging name) : EndsUpload name :=
  h.2.trans (List.tail_suffix _)

end Vault.Storage
