import Vault.Metadata.Models
import Vault.Lib.Transaction

/-! The argument checks that `MetadataManager` makes before it opens a transaction. -/

namespace Vault.Metadata

open Vault.Common

abbrev Tx := Vault.Lib.Transaction.Tx Db Failure

def validateChecksum : Arg String → Except Failure Checksum
  | .illTyped => .error (.value "checksum must be a 64-character SHA-256 hex digest")
  | .value s =>
    if hs : s.toList.length = 64 then
      match hd : parseDigits s.toList with
      | some ds => .ok ⟨ds, length_digest hd hs⟩
      | none => .error (.value "checksum must contain only hexadecimal characters")
    else .error (.value "checksum must be a 64-character SHA-256 hex digest")

def validateNonNegative (field : String) : Arg ℤ → Except Failure ℕ
  | .value (.ofNat n) => .ok n
  | _ => .error (.value (field ++ " must be a non-negative integer"))

def validateOptionalNonNegative (field : String) : Arg (Option ℤ) → Except Failure (Option ℕ)
  | .value none => .ok none
  | .value (some (.ofNat n)) => .ok (some n)
  | _ => .error (.value (field ++ " must be a non-negative integer"))

def validateExpectedVersion : Arg (Option ℤ) → Except Failure (Option ℕ)
  | .value none => .ok none
  | .value (some (.ofNat n)) => .ok (some n)
  | _ => .error (.value "expected_current_version must be a non-negative integer or None")

def validateNonEmpty (message : String) : Arg String → Except Failure String
  | .illTyped => .error (.value message)
  | .value s => if strip s = "" then .error (.value message) else .ok (strip s)

def validateNodeId : Arg String → Except Failure String :=
  validateNonEmpty "node_id must be a non-empty string"

def validateTyped {α : Type} (message : String) : Arg α → Except Failure α
  | .value a => .ok a
  | .illTyped => .error (.value message)

def bindArg {α : Type} : Arg α → Except Failure α
  | .value a => .ok a
  | .illTyped => .error .illTyped

def normalizeObjectName : Arg String → Except Failure String
  | .illTyped => .error (.value "object name must be a string")
  | .value s =>
    let normalized := strip s
    if normalized = "" then .error (.value "object name must not be empty")
    else if normalized.toList.length > maxObjectNameLength then
      .error (.value s!"object name must not exceed {maxObjectNameLength} characters")
    else if normalized.toList.any (fun c => c.toNat < 0x20 || c.toNat == 0x7F) then
      .error (.value "object name must not contain control characters")
    else .ok normalized

end Vault.Metadata
