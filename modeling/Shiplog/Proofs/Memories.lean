import Shiplog.Proofs.Scenes
import Shiplog.Replication.Handlers

/-!
Surroundings that remember. What a program asks of what surrounds it, and what comes of that, is
put down in notes beside it, each with what the coordinator is at that moment
(`Surroundings.remembering`). Nothing else of the program changes (`Mirrored`), so what is noted
of a program is what it does, wherever it is performed.
-/
namespace Shiplog

/-- What a node's data is called for. -/
inductive Hook where
  /-- To take over a log that a primary shipped. -/
  | apply (log : Bytes)
  /-- To take over what a primary sent to bring the node up to date. -/
  | install (payload : Bytes)
  /-- To be ready for writes. -/
  | promote
  deriving DecidableEq

/-- What passes between a program and its surroundings. -/
inductive Event where
  | begins (hook : Hook)
  | ends (hook : Hook) (outcome : Except Error Unit)
  | asks (channel : Channel) (address : String) (request : Request)
  | answers (channel : Channel) (address : String) (request : Request) (outcome : Except Error Reply)

variable {ε ν α β : Type}

def Surroundings.hook (s : Surroundings ε) : Hook → Action (Scene ε) Unit
  | .apply log => s.apply log
  | .install payload => s.install payload
  | .promote => s.promote

namespace Scene

/-- A scene without what is remembered. -/
def forget (scene : Scene (ε × List ν)) : Scene ε := ⟨scene.coordinator, scene.outside.1⟩

/-- An action with notes made of its beginning and of its end. -/
def noted (before : Coordinator → List ν) (after : Except Error α → Coordinator → List ν) (act : Action (Scene ε) α) :
    Action (Scene (ε × List ν)) α :=
  Action.ofStep fun scene =>
    let (outcome, scene') := act.perform scene.forget
    (outcome, ⟨scene'.coordinator,
      (scene'.outside, scene.outside.2 ++ before scene.coordinator ++ after outcome scene'.coordinator)⟩)

/-- An action of which nothing is noted. -/
def unnoted (act : Action (Scene ε) α) : Action (Scene (ε × List ν)) α := noted (fun _ => []) (fun _ _ => []) act

theorem perform_noted (before : Coordinator → List ν) (after : Except Error α → Coordinator → List ν)
    (act : Action (Scene ε) α) (scene : Scene (ε × List ν)) :
    (noted before after act).perform scene =
      ((act.perform scene.forget).1, ⟨(act.perform scene.forget).2.coordinator,
        ((act.perform scene.forget).2.outside, scene.outside.2 ++ before scene.coordinator ++
          after (act.perform scene.forget).1 (act.perform scene.forget).2.coordinator)⟩) := rfl

/-- An action does the same as another that does without what is remembered. -/
def Mirrors (act : Action (Scene (ε × List ν)) α) (act' : Action (Scene ε) α) : Prop :=
  ∀ scene, act'.perform scene.forget = ((act.perform scene).1, (act.perform scene).2.forget)

theorem mirrors_noted (before : Coordinator → List ν) (after : Except Error α → Coordinator → List ν)
    (act : Action (Scene ε) α) : Mirrors (noted before after act) act := fun _ => rfl

theorem Mirrors.bind {act : Action (Scene (ε × List ν)) α} {act' : Action (Scene ε) α}
    {next : α → Action (Scene (ε × List ν)) β} {next' : α → Action (Scene ε) β} (first : Mirrors act act')
    (later : ∀ a, Mirrors (next a) (next' a)) : Mirrors (act >>= next) (act' >>= next') := by
  intro scene
  rw [Action.perform_bind, Action.perform_bind, first scene]
  rcases act.perform scene with ⟨e | a, scene'⟩
  · rfl
  · exact later a scene'

theorem Mirrors.ofExcept (outcome : Except Error α) :
    Mirrors (Action.ofExcept outcome : Action (Scene (ε × List ν)) α) (Action.ofExcept outcome) := fun _ => rfl

theorem Mirrors.outcome {act : Action (Scene (ε × List ν)) α} {act' : Action (Scene ε) α} (same : Mirrors act act') :
    Mirrors act.outcome act'.outcome := by
  intro scene
  rw [Action.perform_outcome, Action.perform_outcome, same scene]

theorem Mirrors.tryCatch {act : Action (Scene (ε × List ν)) α} {act' : Action (Scene ε) α}
    {handler : Error → Action (Scene (ε × List ν)) α} {handler' : Error → Action (Scene ε) α} (first : Mirrors act act')
    (later : ∀ e, Mirrors (handler e) (handler' e)) : Mirrors (tryCatch act handler) (tryCatch act' handler') := by
  intro scene
  rw [Action.perform_tryCatch, Action.perform_tryCatch, first scene]
  rcases act.perform scene with ⟨e | a, scene'⟩
  · exact later e scene'
  · rfl

theorem Mirrors.forM {act : β → Action (Scene (ε × List ν)) Unit} {act' : β → Action (Scene ε) Unit}
    (each : ∀ b, Mirrors (act b) (act' b)) (items : List β) : Mirrors (items.forM act) (items.forM act') := by
  induction items with
  | nil => exact .ofExcept (.ok ())
  | cons b rest ih => exact (each b).bind fun _ => ih

theorem mirrors_current : Mirrors (Scene.current : Action (Scene (ε × List ν)) Coordinator) Scene.current := fun _ => rfl

theorem mirrors_change (f : Coordinator → Coordinator) :
    Mirrors (Scene.change f : Action (Scene (ε × List ν)) Unit) (Scene.change f) := fun _ => rfl

theorem mirrors_step (f : Coordinator → Except Error α × Coordinator) :
    Mirrors (Scene.step f : Action (Scene (ε × List ν)) α) (Scene.step f) := fun _ => rfl

end Scene

open Scene (Mirrors mirrors_current mirrors_change mirrors_step mirrors_noted)

/-- Surroundings that do the same as others that do without what is remembered. -/
structure Mirrored (s : Surroundings (ε × List ν)) (s' : Surroundings ε) : Prop where
  now : Mirrors s.now s'.now
  position : Mirrors s.position s'.position
  snapshot : ∀ after, Mirrors (s.snapshot after) (s'.snapshot after)
  hook : ∀ hook, Mirrors (s.hook hook) (s'.hook hook)
  call : ∀ channel address request, Mirrors (s.call channel address request) (s'.call channel address request)

/-- Surroundings that remember what they are asked, and what comes of it. -/
def Surroundings.remembering (note : Event → Coordinator → List ν) (s : Surroundings ε) : Surroundings (ε × List ν) where
  now := Scene.unnoted s.now
  position := Scene.unnoted s.position
  snapshot after := Scene.unnoted (s.snapshot after)
  install payload :=
    Scene.noted (note (.begins (.install payload))) (fun outcome => note (.ends (.install payload) outcome)) (s.install payload)
  apply log := Scene.noted (note (.begins (.apply log))) (fun outcome => note (.ends (.apply log) outcome)) (s.apply log)
  promote := Scene.noted (note (.begins .promote)) (fun outcome => note (.ends .promote outcome)) s.promote
  call channel address request :=
    Scene.noted (note (.asks channel address request)) (fun outcome => note (.answers channel address request outcome))
      (s.call channel address request)

theorem Surroundings.hook_remembering (note : Event → Coordinator → List ν) (s : Surroundings ε) (hook : Hook) :
    (s.remembering note).hook hook =
      Scene.noted (note (.begins hook)) (fun outcome => note (.ends hook outcome)) (s.hook hook) := by
  cases hook <;> rfl

theorem mirrored_remembering (note : Event → Coordinator → List ν) (s : Surroundings ε) :
    Mirrored (s.remembering note) s where
  now := mirrors_noted _ _ _
  position := mirrors_noted _ _ _
  snapshot _ := mirrors_noted _ _ _
  hook hook := by
    rw [Surroundings.hook_remembering]
    exact mirrors_noted _ _ _
  call _ _ _ := mirrors_noted _ _ _

/-! ## Programs -/

namespace Mirrored

variable {s : Surroundings (ε × List ν)} {s' : Surroundings ε} (mirrored : Mirrored s s')

include mirrored

theorem applyShipped (log : Bytes) : Mirrors (Standby.applyShipped s log) (Standby.applyShipped s' log) := by
  refine mirrors_current.bind fun c => ?_
  split
  · exact .ofExcept (.error _)
  · exact mirrored.hook (.apply log)

theorem promote : Mirrors (Standby.promote s) (Standby.promote s') := by
  refine mirrors_current.bind fun c => ?_
  split
  · exact .ofExcept (.ok ())
  · exact (mirrored.hook .promote).bind fun _ => mirrors_change _

theorem handshake (peer address : String) :
    Mirrors (Standby.handshake s peer address) (Standby.handshake s' peer address) := by
  refine mirrors_current.bind fun c => ?_
  split
  · exact .ofExcept (.ok ())
  · refine mirrored.position.bind fun after => .bind ?_ fun payload => ?_
    · exact (mirrored.call _ _ _).bind fun _ => .ofExcept _
    · exact (mirrored.hook (.install payload)).bind fun _ => mirrors_change _

theorem tick (peer : String) : Mirrors (Standby.tick s peer) (Standby.tick s' peer) := by
  refine mirrors_current.bind fun c => ?_
  cases c.peers.get? peer with
  | none => exact .ofExcept (.ok ())
  | some address =>
    have asking : Mirrors (Peer.askRole (s.call .control address) c.node (c.isReadyWith peer))
        (Peer.askRole (s'.call .control address) c.node (c.isReadyWith peer)) :=
      (mirrored.call _ _ _).bind fun _ => .ofExcept _
    refine asking.outcome.bind fun answer => ?_
    cases answer with
    | error e => exact mirrors_change _
    | ok role =>
      refine mirrored.now.bind fun time => (mirrors_change _).bind fun _ => mirrors_current.bind fun c => ?_
      split
      · exact (mirrored.handshake peer address).outcome.bind fun _ => .ofExcept (.ok ())
      · exact .ofExcept (.ok ())

theorem takeLog (args : List Bytes) : Mirrors (Replication.takeLog s args) (Replication.takeLog s' args) :=
  (Mirrors.ofExcept _).bind fun log => (mirrored.applyShipped log).bind fun _ => .ofExcept (.ok Reply.ok)

theorem becomePrimary (args : List Bytes) :
    Mirrors (Replication.becomePrimary s args) (Replication.becomePrimary s' args) :=
  mirrored.promote.bind fun _ => .ofExcept (.ok Reply.ok)

theorem deliver (d : Delivery) : Mirrors (Primary.deliver s d) (Primary.deliver s' d) := by
  refine mirrors_current.bind fun c => ?_
  cases c.peers.get? d.node with
  | none => exact .ofExcept (.error _)
  | some address =>
    have once (log : Bytes) : Mirrors (Peer.shipOnce (s.call .shipping address) log)
        (Peer.shipOnce (s'.call .shipping address) log) := (mirrored.call _ _ _).bind fun _ => .ofExcept _
    have again (log : Bytes) (n : Nat) : Mirrors (Peer.retry (Peer.shipOnce (s.call .shipping address) log) n)
        (Peer.retry (Peer.shipOnce (s'.call .shipping address) log) n) := by
      induction n with
      | zero => exact once log
      | succ n ih => exact (once log).tryCatch fun _ => ih
    refine (Mirrors.forM (fun log => again log _) d.logs).outcome.bind fun answer => ?_
    cases answer with
    | error e => exact (mirrors_change _).bind fun _ => .ofExcept (.error e)
    | ok => exact mirrored.now.bind fun time => mirrors_change _

theorem deliverAll (ds : List Delivery) : Mirrors (Primary.deliverAll s ds) (Primary.deliverAll s' ds) := by
  induction ds with
  | nil => exact .ofExcept (.ok [])
  | cons d rest ih =>
    refine (mirrored.deliver d).outcome.bind fun answer => ?_
    cases answer with
    | ok => exact ih
    | error e => exact ih.bind fun failures => .ofExcept (.ok _)

theorem ship (log : Bytes) : Mirrors (Primary.ship s log) (Primary.ship s' log) := by
  refine (mirrors_step _).bind fun ds => (mirrored.deliverAll ds).bind fun failures => ?_
  cases failures with
  | nil => exact .ofExcept (.ok _)
  | cons failure rest => exact .ofExcept (.error _)

theorem flush (node : String) (generation : UInt64) :
    Mirrors (Primary.flush s node generation) (Primary.flush s' node generation) := by
  refine (mirrors_step _).bind fun waiting => ?_
  cases waiting with
  | none => exact .ofExcept (.ok ())
  | some d => exact (mirrored.deliver d).outcome.bind fun _ => .ofExcept (.ok ())

end Mirrored
end Shiplog
