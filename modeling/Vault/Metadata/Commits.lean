import Vault.Metadata.CurrentVersion

/-! The successful commits on one object, in commit order. The calls of any number of writers,
interleaved in any order, are one sequence of operations, so it is enough to follow sequences:
each commit is linked to the one before it. -/

namespace Vault.Metadata

open Vault.Common Vault.Lib

structure Commit where
  expected : Option ℤ
  number : ℕ
  deriving DecidableEq, Repr

def expectation : Arg (Option ℤ) → Option ℤ
  | .value e => e
  | .illTyped => none

def Event.committed (objectId : UUID) (e : Event) : Option Commit :=
  match e.op, e.result with
  | .commitVersion _ _ expected, .ok (.version v) =>
    if v.objectId = objectId then some ⟨expectation expected, v.versionNumber⟩ else none
  | _, _ => none

lemma CurrentNumber.getD {db : Db} {obj : Object} {current : Option ℕ}
    (hobj : db.object? obj.objectId = some obj) (h : CurrentNumber db obj current) :
    current.getD 0 = db.currentNumber obj.objectId := by
  unfold CurrentNumber at h
  cases hc : obj.currentVersionId with
  | none =>
    rw [hc] at h
    obtain rfl := h
    simp [Db.currentNumber, Db.pointer, hobj, hc]
  | some i =>
    rw [hc] at h
    obtain ⟨v, hv, rfl⟩ := h
    simp [Db.currentNumber, Db.pointer, Db.numberOf, hobj, hc, hv]

end Vault.Metadata
