import Shiplog.Config
import Shiplog.Replication.Role

/-!
What a node knows of its peers. A primary keeps a registration for each standby,
with the logs that the standby has yet to receive; a standby keeps a link to each
peer. Each function here is one indivisible change. A registration has a number
of its own, so that whatever comes late for one registration of a node never
touches another. The number is given out before the registration is made, so of
two calls that register a node at the same time either may be the last to do so.
-/
namespace Shiplog

/-- How far the registration of a standby is. -/
inductive Status where
  /-- Its snapshot is being made; logs wait. -/
  | pending
  /-- It receives every log. -/
  | ready
  deriving DecidableEq

/-- How the last shipping to a standby ended. -/
inductive ShipOutcome where
  | delivered
  | failed (reason : String)
  deriving DecidableEq

/-- The registration of a standby with a primary. -/
structure Registration where
  status : Status
  /-- The logs still to be delivered, oldest first. -/
  backlog : List Bytes
  /-- The number of this registration. -/
  generation : UInt64
  /-- When the standby was last heard of, in milliseconds. -/
  lastSeen : Nat
  deriving DecidableEq

/-- What a standby knows of a peer. -/
structure Link where
  /-- Whether the peer has registered this node and brought it up to date. -/
  ready : Bool
  /-- When the peer last told its role, in milliseconds. -/
  lastSeen : Option Nat
  deriving DecidableEq

/-- Logs on their way to a standby. -/
structure Delivery where
  node : String
  generation : UInt64
  logs : List Bytes
  deriving DecidableEq

/-- What a node knows of its peers. -/
structure Coordinator where
  node : String
  /-- The names and addresses of the other members. -/
  peers : OrderedMap String String
  /-- How long a standby may be silent, in milliseconds. -/
  livenessWindow : Nat
  role : Role
  standbys : OrderedMap String Registration
  lastShips : OrderedMap String ShipOutcome
  links : OrderedMap String Link
  /-- The last number that was given out for a registration. -/
  generations : UInt64
  /-- The registrations whose waiting logs are to be sent in the background. -/
  flushes : List (String × UInt64)
  deriving DecidableEq

namespace Coordinator

/-- The coordinator of a node that has just started, as a standby. -/
def ofConfig (config : Config) : Coordinator :=
  { node := config.nodeName, peers := config.peers, livenessWindow := config.livenessWindow.toNat,
    role := .standby, standbys := .empty, lastShips := .empty, links := .empty, generations := 0,
    flushes := [] }

/-! ## Views -/

/-- The names of the standbys that receive every log, in ascending order. -/
def readyStandbys (c : Coordinator) : List String :=
  (c.standbys.filter fun _ r => r.status == .ready).keys

/-- The number of other members. -/
def standbyCount (c : Coordinator) : Nat :=
  c.peers.entries.length

/-- Whether the node is primary with every other member ready. -/
def isWritable (c : Coordinator) : Bool :=
  c.role.isPrimary && c.readyStandbys.length == c.standbyCount

/-- How far the registration of a node is, if it has one. -/
def statusOf (c : Coordinator) (node : String) : Option Status :=
  (c.standbys.get? node).map Registration.status

/-- Whether a peer has brought this node up to date. -/
def isReadyWith (c : Coordinator) (peer : String) : Bool :=
  (c.links.get? peer).any Link.ready

/-! ## Registrations -/

/-- Why a node cannot be registered now, if it cannot. -/
def refusal? (c : Coordinator) (node : String) : Option Error :=
  if !c.role.isPrimary then some .notPrimary
  else if !c.peers.contains node then some (.replication ("unknown node: " ++ node))
  else none

/-- The next number is given out. -/
def allot (c : Coordinator) : Coordinator :=
  { c with generations := c.generations + 1 }

/-- A new pending registration of a node, in place of any it has, whatever its number. -/
def enlist (now : Nat) (node : String) (generation : UInt64) (c : Coordinator) : Coordinator :=
  { c with standbys := c.standbys.insert node ⟨.pending, [], generation, now⟩ }

/-- Whether a registration is the one that its node has now. -/
def holds (c : Coordinator) (node : String) (generation : UInt64) : Bool :=
  (c.standbys.get? node).any (·.generation == generation)

/-- The registration made ready, its waiting logs to be sent in the background;
    nothing if its node has another registration by now, or none. -/
def confirm? (now : Nat) (node : String) (generation : UInt64) (c : Coordinator) : Option Coordinator :=
  if c.holds node generation then
    some { c with
      standbys := c.standbys.modify node fun r => { r with status := .ready, lastSeen := now }
      flushes := if (c.standbys.get? node).any (fun r => r.backlog ≠ []) then
          c.flushes ++ [(node, generation)]
        else c.flushes }
  else none

/-- The registration removed if its node still has it, and the reason kept as the
    outcome of the last shipping. -/
def drop (node : String) (generation : UInt64) (reason : String) (c : Coordinator) : Coordinator :=
  { c with
    standbys := if c.holds node generation then c.standbys.erase node else c.standbys
    lastShips := c.lastShips.insert node (.failed reason) }

/-- A registered node was heard of. -/
def touch (now : Nat) (node : String) (c : Coordinator) : Coordinator :=
  { c with standbys := c.standbys.modify node fun r => { r with lastSeen := now } }

/-- The registrations of standbys that have not been silent for too long. -/
def reap (now : Nat) (c : Coordinator) : Coordinator :=
  if c.role.isPrimary then
    { c with standbys := c.standbys.filter fun _ r => decide (now - r.lastSeen ≤ c.livenessWindow) }
  else c

/-! ## Shipping -/

/-- What a ready registration is sent together with a log: its waiting logs first. -/
def delivery? (log : Bytes) (node : String) (r : Registration) : Option Delivery :=
  match r.status with
  | .ready => some ⟨node, r.generation, r.backlog ++ [log]⟩
  | .pending => none

/-- What the logs waiting for a registration become when a log is shipped: it joins
    those of a pending one, and those of a ready one are on their way. -/
def queue (log : Bytes) (r : Registration) : Registration :=
  match r.status with
  | .ready => { r with backlog := [] }
  | .pending => { r with backlog := r.backlog ++ [log] }

/-- The deliveries that ship a log, in the order of the names. -/
def deliveries (log : Bytes) (c : Coordinator) : List Delivery :=
  c.standbys.entries.filterMap fun entry => delivery? log entry.1 entry.2

/-- The registrations once the deliveries of a log are on their way. -/
def collect (log : Bytes) (c : Coordinator) : Coordinator :=
  { c with standbys := c.standbys.mapValues (queue log) }

/-- The delivery of the logs that wait for a ready registration, if there are any. -/
def waiting? (node : String) (generation : UInt64) (c : Coordinator) : Option Delivery :=
  match c.standbys.get? node with
  | some r =>
    if r.generation = generation ∧ r.status = .ready ∧ r.backlog ≠ [] then
      some ⟨node, generation, r.backlog⟩
    else none
  | none => none

/-- The registrations once the logs that wait for one are on their way. -/
def release (node : String) (c : Coordinator) : Coordinator :=
  { c with standbys := c.standbys.modify node fun r => { r with backlog := [] } }

/-- A delivery arrived. -/
def delivered (now : Nat) (d : Delivery) (c : Coordinator) : Coordinator :=
  { c with
    standbys := c.standbys.modify d.node fun r =>
      if r.generation = d.generation then { r with lastSeen := now } else r
    lastShips := c.lastShips.insert d.node .delivered }

/-! ## Links -/

/-- The link to a peer, as it is before the first word from it. -/
def link (c : Coordinator) (peer : String) : Link :=
  (c.links.get? peer).getD ⟨false, none⟩

/-- A peer did not tell its role. -/
def lost (peer : String) (c : Coordinator) : Coordinator :=
  { c with links := c.links.insert peer { c.link peer with ready := false } }

/-- A peer told its role. -/
def heard (now : Nat) (peer : String) (c : Coordinator) : Coordinator :=
  { c with links := c.links.insert peer { c.link peer with lastSeen := some now } }

/-- A peer brought this node up to date. -/
def synchronized (peer : String) (c : Coordinator) : Coordinator :=
  { c with links := c.links.insert peer { c.link peer with ready := true } }

/-- Whether to register with a peer of a given role. -/
def wants (c : Coordinator) (peer : String) (peerRole : Role) : Bool :=
  peerRole.isPrimary && !c.role.isPrimary && !c.isReadyWith peer

/-- The node becomes primary and gives up its links. -/
def promoted (c : Coordinator) : Coordinator :=
  { c with role := .primary, links := c.links.mapValues fun l => { l with ready := false } }

end Coordinator
end Shiplog
