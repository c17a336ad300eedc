import Vault.Common.Constants
import Vault.Common.Values

/-! The exceptions that the control plane raises: the domain errors of `common/errors.py`, the
subclasses of `StorageNodeClientError`, and Python's own. `illTyped` is what the database driver
raises for a value it cannot bind, or Python for an attribute that a value does not have; `other` is
an exception of any other class. -/

namespace Vault.Common

structure VaultError where
  code : ErrorCode
  message : String
  statusCode : ℕ
  deriving DecidableEq, Repr

instance : ToString VaultError where
  toString e := s!"{e.code}: {e.message}"

inductive ClientErrorKind
  | unavailable | invalidRequest | objectNotFound | objectAlreadyExists
  | insufficientCapacity | protocol | integrity
  deriving DecidableEq, Repr

structure ClientError where
  kind : ClientErrorKind
  message : String
  deriving DecidableEq, Repr

inductive Failure
  | vault (e : VaultError)
  | client (e : ClientError)
  | value (message : String)
  | illTyped
  | other (message : String)
  deriving DecidableEq, Repr

def objectNotFound (name : String) : VaultError :=
  ⟨.objectNotFound, s!"Object '{name}' was not found.", 404⟩

def objectAlreadyExists (name : String) : VaultError :=
  ⟨.objectAlreadyExists, s!"Object '{name}' already exists.", 409⟩

def versionText : Option ℕ → String
  | none => "none"
  | some n => toString n

def versionConflict (expected actual : Option ℕ) : VaultError :=
  ⟨.versionConflict,
    s!"Expected current version {versionText expected}, but current version is {versionText actual}.",
    409⟩

def invalidState (message : String) : VaultError := ⟨.invalidRequest, message, 409⟩

def checksumMismatch (expected actual : Checksum) : VaultError :=
  ⟨.checksumMismatch, s!"Checksum mismatch: expected {expected}, got {actual}.", 409⟩

end Vault.Common
