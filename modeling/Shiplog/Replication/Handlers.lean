import Shiplog.Commands
import Shiplog.Replication.Primary
import Shiplog.Replication.Standby

/-!
The commands by which nodes talk to each other: what a node does when a peer asks
for its role, wants to be registered, ships a log, or has it promoted.
-/
namespace Shiplog.Replication

variable {ε : Type} (s : Surroundings ε)

def argument (args : List Bytes) (index : Nat) (what : String) : Except Error Bytes :=
  match args[index]? with
  | some arg => .ok arg
  | none => .error (.protocol ("missing argument: " ++ what))

def nodeName (arg : Bytes) : Except Error String :=
  match Text.ofBytes? arg with
  | some name => .ok name
  | none => .error (.protocol "node name is not valid UTF-8")

def sequenceId (arg : Bytes) : Except Error Position :=
  (Position.layout.decode arg).mapError fun flaw => .protocol ("bad sequence id: " ++ flaw.text)

/-- Whether a node that gives its name claims to be registered. -/
def claimsReady (args : List Bytes) : Bool :=
  args[2]? == some Peer.readyFlag

/-- A node that gives its name is heard of; a primary disowns one that claims to
    be registered and is not. -/
def greet (args : List Bytes) : Action (Scene ε) Unit := do
  match args[1]? with
  | none => return
  | some arg =>
    let node ← Action.ofExcept (nodeName arg)
    let registered ← Primary.touch s node
    if claimsReady args && !registered && (← Scene.current).role.isPrimary then
      throw (.notRegistered node)

def tellRole : Handler (Scene ε) := fun args => do
  greet s args
  return .integer (← Scene.current).role.code

/-- Registers a standby and sends what brings it up to date. -/
def registerStandby : Handler (Scene ε) := fun args => do
  let node ← Action.ofExcept (argument args 1 "node" >>= nodeName)
  let after ← Action.ofExcept (argument args 2 "sequence id" >>= sequenceId)
  return .bulk (← Primary.register s node after)

/-- Takes over a shipped log. -/
def takeLog : Handler (Scene ε) := fun args => do
  let log ← Action.ofExcept (argument args 1 "record")
  Standby.applyShipped s log
  return .ok

def becomePrimary : Handler (Scene ε) := fun _ => do
  Standby.promote s
  return .ok

/-- The table with the commands of replication. -/
def register (commands : Commands (Scene ε)) : Commands (Scene ε) :=
  (((commands.register Peer.roleCommand (tellRole s)).register Peer.syncCommand (registerStandby s)).register
    Peer.shipCommand (takeLog s)).register Peer.promoteCommand (becomePrimary s)

end Shiplog.Replication
