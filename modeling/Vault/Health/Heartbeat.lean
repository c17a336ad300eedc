import Vault.Recovery.Reconciliation

/-! `HeartbeatService`. A payload is what the wire contract admits: a stripped, non-empty node id and
no more used bytes than capacity. -/

namespace Vault.Health

open Vault.Common Vault.Metadata Vault.Storage Vault.Lib Vault.Lib.Script Vault.Recovery

structure HeartbeatPayload where
  nodeId : String
  capacityBytes : ℕ
  usedBytes : ℕ
  timestamp : Time
  nodeId_ne : nodeId ≠ ""
  nodeId_stripped : strip nodeId = nodeId
  used_le : usedBytes ≤ capacityBytes
  deriving DecidableEq, Repr

def normalizePayload (nodeId : String) (capacityBytes usedBytes : ℕ) (timestamp : Time) :
    Option HeartbeatPayload :=
  if h : strip nodeId ≠ "" ∧ usedBytes ≤ capacityBytes then
    some ⟨strip nodeId, capacityBytes, usedBytes, timestamp, h.1, strip_strip nodeId, h.2⟩
  else none

structure HeartbeatResult where
  nodeId : String
  accepted : Bool
  status : NodeState
  capacityBytes : ℕ
  usedBytes : ℕ
  freeBytes : ℕ
  lastHeartbeatAt : Option Time
  deriving DecidableEq, Repr

def heartbeatResult (node : StorageNode) (accepted : Bool) : HeartbeatResult :=
  { nodeId := node.nodeId, accepted := accepted, status := node.status,
    capacityBytes := node.capacityBytes, usedBytes := node.usedBytes, freeBytes := node.freeBytes,
    lastHeartbeatAt := node.lastHeartbeatAt }

def processPayload (payload : HeartbeatPayload) : Tx (StorageNode × Bool) :=
  processNodeHeartbeat (.value payload.nodeId) (.value (some payload.capacityBytes))
    (.value (some payload.usedBytes)) (.value payload.timestamp)

def advanceNode (node : StorageNode) : Job StorageNode :=
  match node.status with
  | .joining | .suspect => transaction (transitionNodeState (.value node.nodeId) (.value .healthy))
  | .unavailable => transaction (transitionNodeState (.value node.nodeId) (.value .recovering))
  | .removed => raise (.vault (invalidState
      s!"Removed node {node.nodeId} must be registered again before heartbeat."))
  | _ => pure node

def ingest (payload : HeartbeatPayload) : Job HeartbeatResult := do
  let (node, accepted) ← transaction (processPayload payload)
  if accepted then
    let node ← advanceNode node
    pure (heartbeatResult node true)
  else pure (heartbeatResult node false)

def ingestAndRecover (replicationFactor : ℕ) (payload : HeartbeatPayload) : Job HeartbeatResult := do
  let result ← ingest payload
  if result.accepted = false ∨ result.status ≠ .recovering then pure result
  else
    let _ ← reconcileAndMarkHealthy replicationFactor result.nodeId
    let db ← query
    let node ← demand (db.node? result.nodeId) (.vault (invalidState
      s!"Recovered node {result.nodeId} disappeared during reconciliation."))
    pure (heartbeatResult node true)

end Vault.Health
