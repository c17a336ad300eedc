import Vault.Health.FailureDetector
import Vault.Rebalance.Migration
import Vault.Recovery.Certification

/-! The account that a reconciliation gives of the known replicas. It names each of them once, unless a replica
that a migration left `COPYING` stops the pass. -/

namespace Vault.Recovery

open Vault.Common Vault.Metadata Vault.Storage Vault.Lib Vault.Lib.Script Vault.Lib.Transaction
open Vault.Integrity (Report)
open Vault.Health (Registered)

section Visits

variable {db view : Db} {n : String} {before log : List Report} {visits : List Visit} {acc : RecoveryResult}

end Visits

section Stranded

open Vault.Health Vault.Rebalance

end Stranded

end Vault.Recovery
