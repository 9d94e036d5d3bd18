import Shiplog.Replication.Coordinator
import Shiplog.Replication.Peer

/-!
A coordinator at work: its state, its surroundings, and what it asks of them. The
surroundings keep the node's data, tell the time and reach the peers; while they
do what they are asked, the coordinator may change under way.
-/
namespace Shiplog

/-- A coordinator and what surrounds it. -/
structure Scene (ε : Type) where
  coordinator : Coordinator
  outside : ε

/-- What a call to a peer is about; each peer has one line for either. -/
inductive Channel where
  /-- Roles and registrations. -/
  | control
  /-- Shipped logs. -/
  | shipping
  deriving DecidableEq

/-- What a coordinator asks of its surroundings. -/
structure Surroundings (ε : Type) where
  /-- The time in milliseconds. -/
  now : Action (Scene ε) Nat
  position : Action (Scene ε) Position
  /-- What brings a standby at a position up to date. -/
  snapshot : Position → Action (Scene ε) Bytes
  /-- Takes over what a primary sent to bring this node up to date. -/
  install : Bytes → Action (Scene ε) Unit
  /-- Takes over a log that a primary shipped. -/
  apply : Bytes → Action (Scene ε) Unit
  /-- Makes this node's data ready for writes of its own. -/
  promote : Action (Scene ε) Unit
  call : Channel → String → Request → Action (Scene ε) Reply

namespace Scene

variable {ε α : Type}

def current : Action (Scene ε) Coordinator :=
  Action.reading fun scene => .ok scene.coordinator

def change (f : Coordinator → Coordinator) : Action (Scene ε) Unit :=
  modify fun scene => { scene with coordinator := f scene.coordinator }

/-- One change of the coordinator with an answer. -/
def step (f : Coordinator → Except Error α × Coordinator) : Action (Scene ε) α :=
  Action.ofStep fun scene =>
    let (answer, coordinator) := f scene.coordinator
    (answer, { scene with coordinator })

def onOutside (act : Action ε α) : Action (Scene ε) α :=
  Action.focus (fun scene => scene.outside) (fun scene outside => { scene with outside }) act

end Scene
end Shiplog
