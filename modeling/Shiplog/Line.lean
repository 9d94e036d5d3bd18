import Shiplog.Address
import Shiplog.Wire.Reply
import Shiplog.Wire.Request

/-!
Lines, on which one node calls another. A line is opened by the first call and
kept for the next; a call that fails closes it, so that no reply to a failed call
is ever taken for the reply to a later one.
-/
namespace Shiplog

/-- What carries bytes between nodes: opening a connection to an address, which
    gives it a number, sending bytes on it and taking bytes off it. -/
structure Transport (σ : Type) where
  dial : String → σ → Except Fault Nat × σ
  send : Nat → Bytes → Action σ Unit
  take : Nat → Nat → Action σ Bytes

/-- A line to the node at an address, with its connection while it has one. -/
structure Line where
  address : String
  connection : Option Nat
  deriving DecidableEq

namespace Line

/-- The line to an address before the first call. -/
def idle (address : String) : Line := ⟨address, none⟩

def isConnected (line : Line) : Bool :=
  line.connection.isSome

def disconnect (line : Line) : Line :=
  { line with connection := none }

variable {σ : Type}

def dial (transport : Transport σ) (address : String) : Action σ Nat := do
  match Address.check address with
  | .error flaw => throw (.network ("Bad address " ++ address ++ ": " ++ flaw.text))
  | .ok () =>
    Action.ofStep fun s =>
      match transport.dial address s with
      | (.ok connection, s') => (.ok connection, s')
      | (.error fault, s') => (.error (.network ("Connect to " ++ address ++ " failed: " ++ fault.text)), s')

/-- The connection of a line, opened if it has none. -/
def reach (transport : Transport σ) (line : Line) : Action σ Nat :=
  match line.connection with
  | some connection => return connection
  | none => dial transport line.address

/-- Sends a request on a connection and reads one reply. A request too large for a
    frame is not sent. -/
def exchange (transport : Transport σ) (connection : Nat) (request : Request) : Action σ Reply := do
  let bytes ← Action.ofExcept (Wire.check request.frame.write)
  transport.send connection bytes
  Reply.receive (transport.take connection)

/-- Calls the node: sends a request and waits for its reply. An error reply is a
    reply; any other failure closes the connection. -/
def call (transport : Transport σ) (request : Request) : Action (Line × σ) Reply :=
  Action.ofStep fun (line, s) =>
    match (reach transport line).perform s with
    | (.error e, s) => (.error e, line, s)
    | (.ok connection, s) =>
      match (exchange transport connection request).perform s with
      | (.ok reply, s) => (.ok reply, { line with connection := some connection }, s)
      -- A reply may still be on its way; on a new connection it is never read.
      | (.error e, s) => (.error e, line.disconnect, s)

/-- One call on a line that is opened for it and closed after it. -/
def callOnce (transport : Transport σ) (address : String) (request : Request) : Action σ Reply :=
  Action.ofStep fun s =>
    let (answer, _, s) := (call transport request).perform (Line.idle address, s)
    (answer, s)

end Line
end Shiplog
