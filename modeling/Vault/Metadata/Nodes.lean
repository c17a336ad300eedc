import Vault.Metadata.Validation
import Vault.Lib.Program

/-! Storage-node operations of `MetadataManager`. `updateNodeHeartbeat` runs two transactions:
what the first one recorded stays when the second one is refused. -/

namespace Vault.Metadata

open Vault.Common Vault.Lib Vault.Lib.Transaction Vault.Lib.Transaction.Tx Vault.Lib.Program

def StorageNode.enter (state : NodeState) (n : StorageNode) : StorageNode := { n with status := state }

def StorageNode.beat (capacity used : ℕ) (timestamp : Time) (n : StorageNode) : StorageNode :=
  { n with capacityBytes := capacity, usedBytes := used, lastHeartbeatAt := some timestamp }

def insertNode (node : StorageNode) (db : Db) : Db :=
  { db with nodes := db.nodes ++ [node], nextId := db.nextId + 1 }

def transitionNodeState (nodeId : Arg String) (state : Arg NodeState) : Tx StorageNode := do
  let nodeId ← check (validateNodeId nodeId)
  let state ← check (validateTyped "state must be a NodeState" state)
  let db ← read
  let node ← demand (db.node? nodeId) (.vault (objectNotFound nodeId))
  if state = node.status then pure node
  else
    require (state ∈ nodeStateTransitions node.status) (.vault (invalidState
      s!"Cannot transition node {nodeId} from {node.status} to {state}."))
    write (fun db => db.amendNode nodeId (StorageNode.enter state))
    pure (node.enter state)

def stripSlashes (s : String) : String :=
  String.ofList ((strip s).toList.reverse.dropWhile (· = '/')).reverse

def registerNode (nodeId : Arg (Option String)) (address : Arg String) (capacityBytes : Arg ℤ)
    (status : Arg NodeState) : Tx StorageNode := do
  let _ ← check (validateNonEmpty "address must be a non-empty string" address)
  let address ← check (bindArg address)
  let capacity ← check (validateNonNegative "capacity_bytes" capacityBytes)
  let status ← check (validateTyped "status must be a NodeState" status)
  let normalizedAddress := stripSlashes address
  let db ← read
  match db.nodes.find? (fun n => n.address = normalizedAddress) with
  | some existing => do
    let nodeId ← check (bindArg nodeId)
    require (∀ i ∈ nodeId, existing.nodeId = strip i)
      (.vault (objectAlreadyExists normalizedAddress))
    pure existing
  | none => do
    let nodeId ← check (bindArg nodeId)
    let normalizedNodeId := (nodeId.map strip).getD db.newUuid.hex
    require (normalizedNodeId ≠ "") (.value "node_id must be a non-empty string")
    require ((db.node? normalizedNodeId).isNone) (.vault (objectAlreadyExists normalizedNodeId))
    let node : StorageNode :=
      { nodeId := normalizedNodeId, address := normalizedAddress, status := status,
        capacityBytes := capacity }
    write (insertNode node)
    pure node

def processNodeHeartbeat (nodeId : Arg String) (capacityBytes usedBytes : Arg (Option ℤ))
    (heartbeatAt : Arg Time) : Tx (StorageNode × Bool) := do
  let nodeId ← check (validateNodeId nodeId)
  let capacity ← check (validateOptionalNonNegative "capacity_bytes" capacityBytes)
  let used ← check (validateOptionalNonNegative "used_bytes" usedBytes)
  let timestamp ← check (validateTyped "heartbeat_at must be a datetime" heartbeatAt)
  let db ← read
  let node ← demand (db.node? nodeId) (.vault (objectNotFound nodeId))
  require (node.status ≠ .removed) (.vault (invalidState
    s!"Removed node {nodeId} must be registered again before heartbeat."))
  if ∃ current ∈ node.lastHeartbeatAt, timestamp ≤ current then pure (node, false)
  else
    let nextCapacity := capacity.getD node.capacityBytes
    let nextUsed := used.getD node.usedBytes
    require (nextUsed ≤ nextCapacity) (.value "used_bytes cannot exceed capacity_bytes")
    write (fun db => db.amendNode nodeId (StorageNode.beat nextCapacity nextUsed timestamp))
    pure (node.beat nextCapacity nextUsed timestamp, true)

def updateNodeHeartbeat (now : Time) (nodeId : Arg String) (capacityBytes usedBytes : Arg (Option ℤ))
    (status : Arg (Option NodeState)) (heartbeatAt : Arg (Option Time)) :
    Prog Db Failure StorageNode := do
  let timestamp : Arg Time :=
    match heartbeatAt with
    | .value (some t) => .value t
    | .value none => .value now
    | .illTyped => .illTyped
  let (node, accepted) ← Prog.ofTx (processNodeHeartbeat nodeId capacityBytes usedBytes timestamp)
  match status with
  | .value none => pure node
  | .illTyped => Prog.raise (.value "status must be a NodeState")
  | .value (some s) =>
    if accepted = true ∧ node.status ≠ s then
      Prog.ofTx (transitionNodeState (.value node.nodeId) (.value s))
    else pure node

end Vault.Metadata
