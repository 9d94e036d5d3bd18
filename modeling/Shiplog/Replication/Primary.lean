import Shiplog.Replication.Scene

/-!
The primary's side of replication: registering standbys, shipping logs to them,
and giving up those that fail or fall silent.
-/
namespace Shiplog.Primary

variable {ε : Type} (s : Surroundings ε)

/-! ## Registering -/

/-- What brings a standby up to date, if it fits in a frame. -/
def payload (after : Position) : Action (Scene ε) Bytes := do
  let payload ← s.snapshot after
  Action.ofExcept (Wire.check (Frame.checkLength payload.length))
  return payload

/-- Whether a node may be registered now. -/
def welcome (node : String) : Action (Scene ε) Unit := do
  match (← Scene.current).refusal? node with
  | some e => throw e
  | none => return

/-- Gives out the number of a new registration. -/
def allot : Action (Scene ε) UInt64 :=
  Scene.step fun c => (.ok c.allot.generations, c.allot)

/-- Makes the registration with a number: pending, in place of any that the node has
    by then. -/
def enlist (node : String) (generation : UInt64) : Action (Scene ε) Unit := do
  let now ← s.now
  Scene.change (·.enlist now node generation)

/-- Makes a registration ready, unless its node has another one by now, or none. -/
def confirm (node : String) (generation : UInt64) : Action (Scene ε) Unit := do
  let now ← s.now
  Scene.step fun c =>
    match c.confirm? now node generation with
    | some c => (.ok (), c)
    | none => (.error (.replication ("registration of " ++ node ++ " was superseded")), c)

/-- Makes what brings a registered node up to date, and then the registration ready. If
    that fails, this registration is dropped. -/
def bringUp (node : String) (generation : UInt64) (after : Position) : Action (Scene ε) Bytes := do
  -- While the payload is made, logs queue up and the node may register once more.
  match ← Action.outcome (payload s after) with
  | .error e =>
    Scene.change (·.drop node generation e.message)
    throw e
  | .ok payload =>
    confirm s node generation
    return payload

/-- Registers a node, and gives what brings it up to date. -/
def register (node : String) (after : Position) : Action (Scene ε) Bytes := do
  welcome node
  let generation ← allot
  -- Another call may register the node first, with a later number.
  enlist s node generation
  bringUp s node generation after

/-- A registered node was heard of; whether it is registered. -/
def touch (node : String) : Action (Scene ε) Bool := do
  let now ← s.now
  Scene.step fun c => (.ok (c.standbys.contains node), c.touch now node)

/-! ## Shipping -/

/-- Hands the logs of a delivery over in order; the first failure drops the
    registration. -/
def deliver (d : Delivery) : Action (Scene ε) Unit := do
  match (← Scene.current).peers.get? d.node with
  | none => throw (.replication ("unknown node: " ++ d.node))
  | some address =>
    match ← Action.outcome (d.logs.forM (Peer.ship (s.call .shipping address))) with
    | .error e =>
      Scene.change (·.drop d.node d.generation e.message)
      throw e
    | .ok () =>
      let now ← s.now
      Scene.change (·.delivered now d)

/-- Makes every delivery and gives the errors of those that failed. -/
def deliverAll : List Delivery → Action (Scene ε) (List (String × Error))
  | [] => return []
  | d :: rest => do
    match ← Action.outcome (deliver s d) with
    | .ok () => deliverAll rest
    | .error e => return (d.node, e) :: (← deliverAll rest)

/-- The report of a failed delivery. -/
def failureText (failure : String × Error) : String :=
  failure.1 ++ ": " ++ failure.2.message

/-- Ships a log to every ready standby, and lets it wait for every pending one. It
    gives the number of standbys that have it, or the failures. -/
def ship (log : Bytes) : Action (Scene ε) Nat := do
  let deliveries ← Scene.step fun c =>
    if c.role.isPrimary then (.ok (c.deliveries log), c.collect log) else (.error .notPrimary, c)
  match ← deliverAll s deliveries with
  | [] => return deliveries.length
  | failures => throw (.shipFailed (failures.map failureText))

/-- Sends the logs that wait for a registration, if its node still has it. -/
def flush (node : String) (generation : UInt64) : Action (Scene ε) Unit := do
  let waiting ← Scene.step fun c =>
    match c.waiting? node generation with
    | some d => (.ok (some d), c.release node)
    | none => (.ok none, c)
  match waiting with
  | none => return
  | some d => let _ ← Action.outcome (deliver s d)

/-- Sends everything that is to be sent in the background. -/
def flushAll : Action (Scene ε) Unit := do
  let flushes ← Scene.step fun c => (.ok c.flushes, { c with flushes := [] })
  flushes.forM fun (node, generation) => flush s node generation

/-- Gives up the standbys that have been silent for too long. -/
def reap : Action (Scene ε) Unit := do
  let now ← s.now
  Scene.change (·.reap now)

end Shiplog.Primary
