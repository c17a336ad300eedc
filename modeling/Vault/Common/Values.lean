import Mathlib.Data.List.DropRight
import Mathlib.Tactic

/-! Identifiers, digests and the arguments a caller may pass. UUIDs are drawn from the supply
that the database keeps fresh, instants are UTC microseconds, a `Checksum` is a SHA-256 digest
normalised to 64 hexadecimal digits, and an `Arg` is a value of the type that the code asks for
with `isinstance` or a value of some other type. `strip` removes the characters for which
`str.isspace` holds. -/

namespace Vault.Common

structure UUID where
  n : ℕ
  deriving DecidableEq, Repr, Inhabited

abbrev Time := ℤ

def hexDigit (d : ℕ) : Char := (Nat.toDigits 16 (d % 16)).headD '0'

def UUID.digits (u : UUID) : List Char :=
  (List.range 32).map (fun i => hexDigit (u.n / 16 ^ (31 - i)))

def UUID.hex (u : UUID) : String := String.ofList u.digits

instance : ToString UUID where
  toString u :=
    let d := u.digits
    String.ofList (d.take 8 ++ '-' :: (d.drop 8).take 4 ++ '-' :: (d.drop 12).take 4 ++
      '-' :: (d.drop 16).take 4 ++ '-' :: d.drop 20)

instance hexBase : NeZero 16 := ⟨Nat.succ_ne_zero 15⟩

structure Checksum where
  digits : List (Fin 16)
  length_eq : digits.length = 64
  deriving DecidableEq, Repr

instance : ToString Checksum where
  toString c := String.ofList (c.digits.map (fun d => hexDigit d.val))

inductive Arg (α : Type)
  | value (a : α)
  | illTyped
  deriving DecidableEq, Repr

def isSpace (c : Char) : Bool :=
  let n := c.toNat
  (9 ≤ n && n ≤ 13) || (28 ≤ n && n ≤ 32) || n == 0x85 || n == 0xA0 || n == 0x1680 ||
    (0x2000 ≤ n && n ≤ 0x200A) || n == 0x2028 || n == 0x2029 || n == 0x202F || n == 0x205F ||
    n == 0x3000

def strip (s : String) : String :=
  String.ofList ((s.toList.dropWhile isSpace).reverse.dropWhile isSpace).reverse

lemma dropWhile_rdropWhile_dropWhile (l : List Char) :
    ((l.dropWhile isSpace).rdropWhile isSpace).dropWhile isSpace =
      (l.dropWhile isSpace).rdropWhile isSpace := by
  rw [List.dropWhile_eq_self_iff]
  intro hl
  have hpre : (l.dropWhile isSpace).rdropWhile isSpace <+: l.dropWhile isSpace :=
    List.rdropWhile_prefix isSpace _
  have hhead := List.dropWhile_get_zero_not isSpace l (hl.trans_le hpre.length_le)
  rwa [List.get_eq_getElem, ← hpre.getElem hl] at hhead

lemma strip_strip (s : String) : strip (strip s) = strip s := by
  have hl : (strip s).toList = (s.toList.dropWhile isSpace).rdropWhile isSpace :=
    String.toList_ofList
  have hss : strip (strip s) =
      String.ofList (((strip s).toList.dropWhile isSpace).rdropWhile isSpace) := rfl
  rw [hss, hl, dropWhile_rdropWhile_dropWhile, List.rdropWhile_idempotent]
  rfl

def hexValue? (c : Char) : Option (Fin 16) :=
  let n := c.toNat
  if 48 ≤ n ∧ n ≤ 57 then some (Fin.ofNat 16 (n - 48))
  else if 97 ≤ n ∧ n ≤ 102 then some (Fin.ofNat 16 (n - 87))
  else if 65 ≤ n ∧ n ≤ 70 then some (Fin.ofNat 16 (n - 55))
  else none

def parseDigits : List Char → Option (List (Fin 16))
  | [] => some []
  | c :: cs =>
    match hexValue? c, parseDigits cs with
    | some d, some ds => some (d :: ds)
    | _, _ => none

lemma length_zeros : (List.replicate 64 (0 : Fin 16)).length = 64 := rfl

lemma length_parseDigits {cs : List Char} {ds : List (Fin 16)} (h : parseDigits cs = some ds) :
    ds.length = cs.length := by
  induction cs generalizing ds with
  | nil =>
    cases h
    rfl
  | cons c cs ih =>
    simp only [parseDigits] at h
    split at h
    · next hd => cases h; simp [ih hd]
    · cases h

lemma length_digest {s : String} {ds : List (Fin 16)} (hd : parseDigits s.toList = some ds) (hs : s.toList.length = 64) :
    ds.length = 64 := (length_parseDigits hd).trans hs

def maxObjectNameLength : ℕ := 255

end Vault.Common
