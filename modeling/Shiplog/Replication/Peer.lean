import Shiplog.Entry
import Shiplog.Replication.Role
import Shiplog.Wire.Reply
import Shiplog.Wire.Request

/-!
What one node asks another: its role, to be registered and brought up to date, to
take a log, and to become primary. Each question is a request and a reading of
its reply, asked by an action that calls the other node.
-/
namespace Shiplog.Peer

/-! ## Requests -/

def roleCommand : String := "REPLICATOR.ROLE"

/-- The command that registers a standby with a primary. -/
def syncCommand : String := "REPLICATOR.SYNC_REG"

/-- The command that hands a log to a standby. -/
def shipCommand : String := "REPLICATOR.SHIP"

def promoteCommand : String := "REPLICATOR.PROMOTE"

/-- The argument by which a standby claims to be registered. -/
def readyFlag : Bytes := Text.toBytes "ready"

/-- Asks for a role, under the name of the node that asks. -/
def roleRequest (node : String) (ready : Bool) : Request :=
  .command roleCommand (Text.toBytes node :: if ready then [readyFlag] else [])

/-- Asks to be registered by a primary, from a position on. -/
def syncRequest (node : String) (after : Position) : Request :=
  .command syncCommand [Text.toBytes node, Position.layout.write after]

/-- Hands over a log. -/
def shipRequest (log : Bytes) : Request :=
  .command shipCommand [log]

def promoteRequest : Request :=
  .command promoteCommand []

/-! ## Replies -/

/-- The error of a reply that does not fit its request. -/
def unexpected (command : String) : Reply → Error
  | .error text => .replication (command ++ ": " ++ text)
  | reply => .protocol (command ++ ": unexpected reply " ++ reply.describe)

/-- How the text of an error reply starts by which a primary disowns a standby. -/
def disowning : String := "not registered: "

/-- The name in the text by which a primary disowns a standby. -/
def disowned? (text : String) : Option String :=
  if disowning.toList.isPrefixOf text.toList then
    some (String.ofList (text.toList.drop disowning.length))
  else none

def readRole : Reply → Except Error Role
  | .integer code => Role.ofCode code
  | .error text =>
    match disowned? text with
    | some node => .error (.notRegistered node)
    | none => .error (unexpected roleCommand (.error text))
  | reply => .error (unexpected roleCommand reply)

/-- The payload in the reply to a registration. -/
def readSync : Reply → Except Error Bytes
  | .bulk payload => .ok payload
  | reply => .error (unexpected syncCommand reply)

def readOk (command : String) (reply : Reply) : Except Error Unit :=
  if reply.isOk then .ok () else .error (unexpected command reply)

/-! ## Questions -/

section
variable {σ : Type} (call : Request → Action σ Reply)

/-- Asks a node for its role. A primary that does not hold the registration of a
    node that claims one answers with an error. -/
def askRole (node : String) (ready : Bool) : Action σ Role := do
  Action.ofExcept (readRole (← call (roleRequest node ready)))

/-- Asks a primary to register a node and for what brings it up to date. -/
def askSync (node : String) (after : Position) : Action σ Bytes := do
  Action.ofExcept (readSync (← call (syncRequest node after)))

def askPromote : Action σ Unit := do
  Action.ofExcept (readOk promoteCommand (← call promoteRequest))

def shipOnce (log : Bytes) : Action σ Unit := do
  Action.ofExcept (readOk shipCommand (← call (shipRequest log)))

/-- Tries an action again as often as a number allows; the last failure counts. -/
def retry (act : Action σ Unit) : Nat → Action σ Unit
  | 0 => act
  | again + 1 => tryCatch act fun _ => retry act again

/-- How often a log is handed over before a standby is given up. -/
def shipAttempts : Nat := 3

/-- Hands a log over. A log that arrives twice is applied once, so trying again
    does no harm. -/
def ship (log : Bytes) : Action σ Unit :=
  retry (shipOnce call log) (shipAttempts - 1)

end

end Shiplog.Peer
