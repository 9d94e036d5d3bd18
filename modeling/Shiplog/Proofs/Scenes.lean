import Shiplog.Proofs.Actions
import Shiplog.Replication.Primary

/-!
Programs of a coordinator among other threads. Where a program waits for its surroundings,
others take steps of a system that accounts for the scene (`Amid`). A log is handed over in
calls only (`Peer.obeys_ship`), and shipping it changes nothing but the coordinator, whose role
it leaves (`Primary.obeys_ship`).
-/
namespace Shiplog

open Shiplog.Action (Obeys)

theorem Peer.obeys_ship {σ : Type} {R : σ → σ → Prop} [IsPreorder σ R] {call : Request → Action σ Reply}
    (calls : ∀ request, Obeys R (call request)) (log : Bytes) : Obeys R (Peer.ship call log) := by
  have once : Obeys R (Peer.shipOnce call log) := (calls _).bind fun _ => .ofExcept _
  have again : ∀ n, Obeys R (Peer.retry (Peer.shipOnce call log) n) := by
    intro n
    induction n with
    | zero => exact once
    | succ n ih => exact once.tryCatch fun _ => ih
  exact again _

namespace Scene

open Relation (ReflTransGen)

variable {ε σ α : Type} {view : σ → Scene ε → Prop} {R : σ → σ → Prop}

theorem perform_current (scene : Scene ε) : current.perform scene = (.ok scene.coordinator, scene) := rfl

theorem perform_change (f : Coordinator → Coordinator) (scene : Scene ε) :
    (change f).perform scene = (.ok (), { scene with coordinator := f scene.coordinator }) := rfl

theorem perform_step (f : Coordinator → Except Error α × Coordinator) (scene : Scene ε) :
    (step f).perform scene =
      ((f scene.coordinator).1, { scene with coordinator := (f scene.coordinator).2 }) := rfl

/-- Steps of a system that accounts for one scene lead to where it accounts for the other. -/
def Tracks (view : σ → Scene ε → Prop) (R : σ → σ → Prop) (scene scene' : Scene ε) : Prop :=
  ∀ x, view x scene → ∃ y, ReflTransGen R x y ∧ view y scene'

instance : IsPreorder (Scene ε) (Tracks view R) where
  refl _ x seen := ⟨x, .refl, seen⟩
  trans _ _ _ first second x seen := by
    obtain ⟨y, steps, seen'⟩ := first x seen
    obtain ⟨z, further, seen''⟩ := second y seen'
    exact ⟨z, steps.trans further, seen''⟩

/-- An action during which others take steps of some kind, and which changes the scene by those
    steps only. -/
abbrev Amid (view : σ → Scene ε → Prop) (R : σ → σ → Prop) (act : Action (Scene ε) α) : Prop :=
  Action.Obeys (Tracks view R) act

theorem Tracks.mono {R' : σ → σ → Prop} {scene scene' : Scene ε} (tracks : Tracks view R scene scene')
    (sub : ∀ x y, R x y → R' x y) : Tracks view R' scene scene' := by
  intro x seen
  obtain ⟨y, steps, seen'⟩ := tracks x seen
  exact ⟨y, ReflTransGen.mono sub x y steps, seen'⟩

theorem Amid.mono {R' : σ → σ → Prop} {act : Action (Scene ε) α} (amid : Amid view R act)
    (sub : ∀ x y, R x y → R' x y) : Amid view R' act := fun scene => (amid scene).mono sub

/-- An action that leaves nothing to account for. -/
theorem Amid.of_same {act : Action (Scene ε) α} (same : ∀ scene x, view x scene → view x (act.perform scene).2) :
    Amid view R act := fun scene x seen => ⟨x, .refl, same scene x seen⟩

end Scene

namespace Primary

variable {ε : Type} {s : Surroundings ε} {R : Scene ε → Scene ε → Prop}

/-- A relation that calls and the clock obey, and changes of the coordinator that leave the role. -/
structure Spared (R : Scene ε → Scene ε → Prop) (s : Surroundings ε) : Prop where
  call : ∀ channel address request, Obeys R (s.call channel address request)
  now : Obeys R s.now
  change : ∀ scene c, c.role = scene.coordinator.role → R scene { scene with coordinator := c }

theorem Spared.step {α : Type} {f : Coordinator → Except Error α × Coordinator} (spared : Spared R s)
    (role : ∀ c, (f c).2.role = c.role) : Obeys R (Scene.step f) := fun scene => spared.change scene _ (role _)

theorem Spared.changes {f : Coordinator → Coordinator} (spared : Spared R s) (role : ∀ c, (f c).role = c.role) :
    Obeys R (Scene.change f : Action (Scene ε) Unit) := fun scene => spared.change scene _ (role _)

variable [IsPreorder (Scene ε) R]

theorem Spared.deliver (spared : Spared R s) (d : Delivery) : Obeys R (deliver s d) := by
  refine Obeys.bind (.reading _) fun c => ?_
  cases c.peers.get? d.node with
  | none => exact .ofExcept (.error _)
  | some address =>
    have all : Obeys R (d.logs.forM (Peer.ship (s.call .shipping address))) :=
      .forM (Peer.obeys_ship (spared.call .shipping address)) d.logs
    refine all.outcome.bind fun answer => ?_
    cases answer with
    | error e =>
      exact (spared.changes (f := (·.drop d.node d.generation e.message)) fun _ => rfl).bind fun _ => .ofExcept (.error e)
    | ok => exact spared.now.bind fun time => spared.changes fun _ => rfl

theorem Spared.deliverAll (spared : Spared R s) (ds : List Delivery) : Obeys R (deliverAll s ds) := by
  induction ds with
  | nil => exact .ofExcept (.ok [])
  | cons d rest ih =>
    refine (spared.deliver d).outcome.bind fun answer => ?_
    cases answer with
    | ok => exact ih
    | error e => exact ih.bind fun failures => .ofExcept (.ok _)

theorem obeys_ship (spared : Spared R s) (log : Bytes) : Obeys R (ship s log) := by
  refine Obeys.bind ?_ fun ds => (spared.deliverAll ds).bind fun failures => ?_
  · refine spared.step fun c => ?_
    split
    · rfl
    · rfl
  · cases failures with
    | nil => exact .ofExcept (.ok _)
    | cons failure rest => exact .ofExcept (.error _)

theorem obeys_flushAll (spared : Spared R s) : Obeys R (flushAll s) := by
  refine Obeys.bind (spared.step fun _ => rfl) fun flushes => .forM (fun (node, generation) => ?_) flushes
  refine Obeys.bind (spared.step fun c => ?_) fun waiting => ?_
  · split
    · rfl
    · rfl
  · cases waiting with
    | none => exact .ofExcept (.ok ())
    | some d => exact (spared.deliver d).outcome.bind fun _ => .ofExcept (.ok ())

theorem obeys_reap (spared : Spared R s) : Obeys R (reap s) := by
  refine spared.now.bind fun time => spared.changes fun c => ?_
  rw [Coordinator.reap]
  split
  · rfl
  · rfl

theorem obeys_touch (spared : Spared R s) (node : String) : Obeys R (touch s node) :=
  spared.now.bind fun _ => spared.step fun _ => rfl

theorem obeys_register (spared : Spared R s) (snapshot : ∀ after, Obeys R (s.snapshot after)) (node : String)
    (after : Position) : Obeys R (register s node after) := by
  have welcome : Obeys R (welcome node : Action (Scene ε) Unit) := by
    refine Obeys.bind (.reading _) fun c => ?_
    split
    · exact .ofExcept (.error _)
    · exact .ofExcept (.ok ())
  have allot : Obeys R (allot : Action (Scene ε) UInt64) := spared.step fun _ => rfl
  refine welcome.bind fun _ => allot.bind fun generation => Obeys.bind ?_ fun _ => ?_
  · exact spared.now.bind fun time => spared.changes fun _ => rfl
  · have payload : Obeys R (payload s after) :=
      (snapshot after).bind fun _ => (Obeys.ofExcept _).bind fun _ => .ofExcept (.ok _)
    refine payload.outcome.bind fun answer => ?_
    cases answer with
    | error e =>
      exact (spared.changes (f := (·.drop node generation e.message)) fun _ => rfl).bind fun _ => .ofExcept (.error e)
    | ok payload =>
      refine (spared.now.bind fun time => spared.step fun c => ?_).bind fun _ => .ofExcept (.ok payload)
      cases confirmed : c.confirm? time node generation with
      | none => rfl
      | some c' =>
        rw [Coordinator.confirm?] at confirmed
        split at confirmed
        · cases confirmed
          rfl
        · cases confirmed

end Primary
end Shiplog
