import Shiplog.OrderedMap
import Shiplog.Wire.Reply
import Shiplog.Wire.Request

/-!
Command tables: what a node does with a request, by the name of its command. A
request that names no known command, or whose handler fails, is answered with an
error reply; nothing that a request says can stop the node.
-/
namespace Shiplog

/-- What answers a command: an action on the node, given all arguments, the name
    first. -/
abbrev Handler (σ : Type) := List Bytes → Action σ Reply

/-- The handlers of a node by the lower-case names of their commands. -/
structure Commands (σ : Type) where
  table : OrderedMap String (Handler σ)

namespace Commands

variable {σ : Type}

/-- The table with a handler under a name, in place of any it had. -/
def register (commands : Commands σ) (name : String) (handler : Handler σ) : Commands σ :=
  ⟨commands.table.insert name.toLower handler⟩

/-- The table that answers nothing but `PING`. -/
def basic : Commands σ :=
  register ⟨.empty⟩ "PING" fun _ => return .status "PONG"

def names (commands : Commands σ) : List String :=
  commands.table.keys

def replyTo : Except Error Reply → Reply
  | .ok reply => reply
  | .error e => .error e.message

/-- The reply to a request, and the state its handler leaves. -/
def dispatch (commands : Commands σ) (request : Request) : StateM σ Reply :=
  match request.name? with
  | none => pure (.error "empty request")
  | some name =>
    match commands.table.get? name with
    | none => pure (.error ("unknown command: " ++ name))
    | some handler => do return replyTo (← (handler request.args).run)

end Commands
end Shiplog
