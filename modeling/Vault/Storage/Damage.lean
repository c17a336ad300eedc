import Vault.Storage.Soundness

/-! What `verify` raises. A damaged object should be reported, and the only exception should say that there is no
object; but `_read_metadata` takes only `OSError` and `JSONDecodeError` for unreadable metadata, so that text which
is no UTF-8 comes out as a `ValueError`, and `_parse_chunk_index` hands `int` digits that it does not read. -/

namespace Vault.Storage

open Vault.Common Vault.Lib

section Outcomes

variable {sha256 : Bytes → Checksum} {k : Key} {dir : Option Dir} {d : Dir}

end Outcomes

end Vault.Storage
