import Vault.Storage.Restart

/-! A `delete` that an `OSError` or a stop of the process ends inside `rmtree`, with some of the files gone and
the directory still there. Three operations decide by different tests whether a version is present: `delete`
and the first check of a write look for `metadata.json`, the publication looks for the directory. -/

namespace Vault.Storage

open Vault.Common Vault.Lib

namespace Engine

variable {sha256 : Bytes → Checksum} {cfg : EngineConfig} {e : Engine} {k : Key} {f : Folder}

end Engine

namespace Host

variable (sha256 : Bytes → Checksum)

variable {sha256} {h : Host}

end Host

end Vault.Storage
