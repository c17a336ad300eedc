import Vault.Worker.Tasks
import Vault.Metadata.Effects

/-! What the background tasks leave behind. Every task starts with a query, so its transaction
blocks are savepoints from then on, and only the creation of a repair job and the steps of a
rebalance job commit: a change that no such commit follows is lost when the scope ends. -/

namespace Vault.Worker

open Vault.Common Vault.Metadata Vault.Storage Vault.Lib Vault.Lib.Script Vault.Lib.Transaction
open Vault.Integrity

section Tasks

variable {ρ : Type} (serve : ∀ {β : Type}, Request β → ρ → β × ρ) (settings : Settings) (task : Task)
  (db : Db) (w : ρ)

def outcome : Except Failure Report × Point Db ρ Note :=
  exec serve (task.job settings) (Point.start db w)

end Tasks

variable {ρ : Type} {serve : ∀ {β : Type}, Request β → ρ → β × ρ} {settings : Settings} {db : Db} {w : ρ}

section Check

variable {replica : Replica} {version : Version} {node : StorageNode} {measured : Blob}

end Check

def sampleWorld : World where
  store := fun _ _ => none
  future := fun _ => { health := .ok (⟨"healthy", "a"⟩, ⟨100, 7⟩), now := 9 }

end Vault.Worker
