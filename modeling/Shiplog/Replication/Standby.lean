import Shiplog.Replication.Scene

/-!
The standby's side of replication: asking the peers for their roles, registering
with the one that is primary, taking the logs it ships, and becoming primary.
-/
namespace Shiplog.Standby

variable {ε : Type} (s : Surroundings ε)

/-- Takes over a shipped log; a primary takes none. -/
def applyShipped (log : Bytes) : Action (Scene ε) Unit := do
  if (← Scene.current).role.isPrimary then
    throw (.replication "refusing shipped log: node is primary")
  s.apply log

/-- Becomes primary, once the data is ready for it. A primary stays as it is. -/
def promote : Action (Scene ε) Unit := do
  unless (← Scene.current).role.isPrimary do
    s.promote
    Scene.change (·.promoted)

/-- Registers with a peer and takes over what it sends. -/
def handshake (peer address : String) : Action (Scene ε) Unit := do
  let c ← Scene.current
  unless c.role.isPrimary do
    let after ← s.position
    let payload ← Peer.askSync (s.call .control address) c.node after
    s.install payload
    Scene.change (·.synchronized peer)

/-- Asks a peer for its role and registers with it if it is primary. A peer that
    does not answer has lost this node. -/
def tick (peer : String) : Action (Scene ε) Unit := do
  let c ← Scene.current
  match c.peers.get? peer with
  | none => return
  | some address =>
    match ← Action.outcome (Peer.askRole (s.call .control address) c.node (c.isReadyWith peer)) with
    | .error _ => Scene.change (·.lost peer)
    | .ok role =>
      let now ← s.now
      Scene.change (·.heard now peer)
      -- The node may have become primary while the peer answered.
      if (← Scene.current).wants peer role then
        let _ ← Action.outcome (handshake s peer address)

def tickAll : Action (Scene ε) Unit := do
  (← Scene.current).peers.keys.forM (tick s)

end Shiplog.Standby
