import Shiplog.Engine
import Shiplog.Replication.Handlers

/-!
A node: an engine with a coordinator around it. A write is logged and applied by
the engine and then shipped to the standbys, so that they receive the entries in
the order of the log. The engine supplies what the coordinator asks of the node's
data.
-/
namespace Shiplog

/-- What a node needs from the world: the time in milliseconds, and calls to other
    nodes. -/
structure World (ω : Type) where
  now : Action ω Nat
  call : Channel → String → Request → Action ω Reply

/-- What surrounds a node's coordinator: its engine and the world. -/
structure Site (ω : Type) where
  engine : Mounted Engine
  world : ω

/-- A node. -/
abbrev Node (ω : Type) := Scene (Site ω)

namespace Node

variable {ω α : Type}

/-- A node around an engine that has been started; it begins as standby. -/
def ofEngine (config : Config) (engine : Mounted Engine) (world : ω) : Node ω :=
  ⟨.ofConfig config, ⟨engine, world⟩⟩

def onEngine (act : Action (Mounted Engine) α) : Action (Node ω) α :=
  Scene.onOutside (Action.focus (fun site : Site ω => site.engine) (fun site engine => { site with engine }) act)

def onWorld (act : Action ω α) : Action (Node ω) α :=
  Scene.onOutside (Action.focus (fun site : Site ω => site.world) (fun site world => { site with world }) act)

variable (w : World ω)

/-- What the coordinator of a node works with. -/
def surroundings : Surroundings (Site ω) where
  now := onWorld w.now
  position := onEngine do return (← Mounted.current).tail
  snapshot _ := do
    let now ← onWorld w.now
    onEngine (Engine.payload (UInt64.ofNat now))
  install payload := onEngine (Engine.installPayload payload)
  apply log := onEngine (Engine.applyPayload log)
  promote := onEngine Engine.promote
  call channel address request := onWorld (w.call channel address request)

/-! ## Reading and writing -/

def get (key : Bytes) : Action (Node ω) (Option Bytes) :=
  onEngine (Mounted.reading fun disk e => e.get disk key)

/-- Makes one change and ships it. If shipping fails the change stays made. -/
def write (entry : Entry) : Action (Node ω) Position := do
  unless (← Scene.current).role.isPrimary do throw .notPrimary
  let position ← onEngine (Engine.change entry)
  let _ ← Primary.ship (surroundings w) (LoggedEntry.layout.write ⟨position, entry⟩)
  return position

def put (key value : Bytes) : Action (Node ω) Position :=
  write w (.put key value)

def delete (key : Bytes) : Action (Node ω) Position :=
  write w (.delete key)

def promote : Action (Node ω) Unit :=
  Standby.promote (surroundings w)

/-! ## Commands -/

/-- The error of a command with too few or too many arguments. -/
def wrongCount (command : String) : Error :=
  .protocol ("wrong number of arguments for " ++ command)

def answerGet : Handler (Node ω)
  | [_, key] => do
    match ← get key with
    | some value => return .bulk value
    | none => return .null
  | _ => throw (wrongCount "GET")

def answerSet : Handler (Node ω)
  | [_, key, value] => do
    let _ ← put w key value
    return .ok
  | _ => throw (wrongCount "SET")

def answerDelete : Handler (Node ω)
  | [_, key] => do
    let _ ← delete w key
    return .ok
  | _ => throw (wrongCount "DEL")

def commands : Commands (Node ω) :=
  Replication.register (surroundings w)
    (((Commands.basic.register "GET" answerGet).register "SET" (answerSet w)).register "DEL" (answerDelete w))

end Node
end Shiplog
