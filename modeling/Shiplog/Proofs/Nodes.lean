import Shiplog.Node
import Shiplog.Proofs.Primaries
import Shiplog.Proofs.Terms

/-!
A node and its engine. What a node asks of its engine leaves its coordinator alone
(`busy_surroundings`), and what it asks of other nodes leaves its engine alone
(`sameEngine_ship`); so a write is a change of the engine, which stays as the change leaves it
(`write_changed`, `write_refused`). A write, a shipped log, a handshake and a promotion put the
log to use as the engine does (`Uses`).
-/
namespace Shiplog
namespace Node

open Shiplog.Action (Obeys)

variable {ω α : Type} {w : World ω} {node node' : Node ω}

def engine (node : Node ω) : Mounted Engine := node.outside.engine

def withEngine (node : Node ω) (m : Mounted Engine) : Node ω :=
  { node with outside := { node.outside with engine := m } }

/-! ## What is left alone -/

/-- The engine is the same. -/
def SameEngine (node node' : Node ω) : Prop := node'.engine = node.engine

instance : IsPreorder (Node ω) SameEngine where
  refl _ := rfl
  trans _ _ _ first second := second.trans first

theorem sameEngine_call (channel : Channel) (address : String) (request : Request) :
    Obeys SameEngine ((surroundings w).call channel address request) := fun _ => rfl

theorem sameEngine_change (f : Coordinator → Coordinator) :
    Obeys SameEngine (Scene.change f : Action (Node ω) Unit) := fun _ => rfl

theorem sameEngine_ship (log : Bytes) : Obeys SameEngine (Primary.ship (surroundings w) log) := by
  have spared : Primary.Spared SameEngine (surroundings w) := ⟨sameEngine_call, fun _ => rfl, fun _ _ _ => rfl⟩
  exact Primary.obeys_ship spared log

/-- The role is the same. -/
def SameRole (node node' : Node ω) : Prop := node'.coordinator.role = node.coordinator.role

instance : IsPreorder (Node ω) SameRole where
  refl _ := rfl
  trans _ _ _ first second := second.trans first

theorem sameRole_ship (log : Bytes) : Obeys SameRole (Primary.ship (surroundings w) log) := by
  have spared : Primary.Spared SameRole (surroundings w) := ⟨fun _ _ _ _ => rfl, fun _ => rfl, fun _ _ role => role⟩
  exact Primary.obeys_ship spared log

/-! ## Writing -/

theorem perform_onEngine (act : Action (Mounted Engine) α) (node : Node ω) :
    (onEngine act).perform node = ((act.perform node.engine).1, node.withEngine (act.perform node.engine).2) := rfl

/-- A standby takes no write, and nothing changes. -/
theorem write_standby (standby : node.coordinator.role = .standby) (entry : Entry) :
    (write w entry).perform node = (.error .notPrimary, node) := by
  rw [write, Action.perform_bind, Scene.perform_current]
  simp only [standby, Role.isPrimary, Bool.false_eq_true, ↓reduceIte, Action.perform_bind, Action.perform_throw]

/-- What a primary's engine refuses is not shipped. -/
theorem write_refused (primary : node.coordinator.role = .primary) {entry : Entry} {e : Error} {m : Mounted Engine}
    (refused : (Engine.change entry).perform node.engine = (.error e, m)) :
    (write w entry).perform node = (.error e, node.withEngine m) := by
  rw [write, Action.perform_bind, Scene.perform_current]
  simp only [primary, Role.isPrimary, ↓reduceIte, Action.perform_bind, perform_onEngine, refused]

/-- A change that a primary's engine makes is shipped, and made whether or not shipping fails. -/
theorem write_changed (primary : node.coordinator.role = .primary) {entry : Entry} {p : Position} {m : Mounted Engine}
    (changed : (Engine.change entry).perform node.engine = (.ok p, m)) :
    (write w entry).perform node =
      (((Primary.ship (surroundings w) (LoggedEntry.layout.write ⟨p, entry⟩)).perform (node.withEngine m)).1.map fun _ => p,
        ((Primary.ship (surroundings w) (LoggedEntry.layout.write ⟨p, entry⟩)).perform (node.withEngine m)).2) := by
  rw [write, Action.perform_bind, Scene.perform_current]
  simp only [primary, Role.isPrimary, ↓reduceIte, Action.perform_bind, Action.perform_pure, perform_onEngine, changed]
  rcases (Primary.ship (surroundings w) (LoggedEntry.layout.write ⟨p, entry⟩)).perform (node.withEngine m) with ⟨_ | _, _⟩
  · rfl
  · rfl

theorem role_cases (node : Node ω) : node.coordinator.role = .primary ∨ node.coordinator.role = .standby := by
  cases node.coordinator.role
  · exact .inl rfl
  · exact .inr rfl

/-- A write leaves the engine as the change does, if there is one. -/
theorem write_engine (entry : Entry) (node : Node ω) :
    ((write w entry).perform node).2.engine = node.engine ∨
      ((write w entry).perform node).2.engine = ((Engine.change entry).perform node.engine).2 := by
  rcases role_cases node with primary | standby
  · refine .inr ?_
    rcases done : (Engine.change entry).perform node.engine with ⟨e | p, m⟩
    · rw [write_refused primary done]
      rfl
    · rw [write_changed primary done]
      exact sameEngine_ship _ (node.withEngine m)
  · rw [write_standby standby]
    exact .inl rfl

/-- A write leaves the role. -/
theorem sameRole_write (entry : Entry) : Obeys SameRole (write w entry) := by
  intro node
  rcases role_cases node with primary | standby
  · rcases done : (Engine.change entry).perform node.engine with ⟨e | p, m⟩
    · rw [write_refused primary done]
      rfl
    · rw [write_changed primary done]
      exact sameRole_ship _ (node.withEngine m)
  · rw [write_standby standby]
    rfl

/-- A write that succeeds is a change that succeeds. -/
theorem change_of_write {entry : Entry} {p : Position} (done : (write w entry).perform node = (.ok p, node')) :
    (Engine.change entry).perform node.engine = (.ok p, node'.engine) := by
  rcases role_cases node with primary | standby
  · rcases changed : (Engine.change entry).perform node.engine with ⟨e | q, m⟩
    · rw [write_refused primary changed] at done
      cases done
    · rw [write_changed primary changed] at done
      have kept := sameEngine_ship (w := w) (LoggedEntry.layout.write ⟨q, entry⟩) (node.withEngine m)
      rcases shipped : (Primary.ship (surroundings w) (LoggedEntry.layout.write ⟨q, entry⟩)).perform (node.withEngine m)
        with ⟨_ | _, node''⟩
      · rw [shipped] at done
        cases done
      · rw [shipped] at done kept
        cases done
        exact congrArg (Except.ok q, ·) kept.symm
  · rw [write_standby standby] at done
    cases done

/-- A standby that is promoted has its engine promoted. -/
theorem engine_of_promote (standby : node.coordinator.role = .standby)
    (done : (promote w).perform node = (.ok (), node')) : Engine.promote.perform node.engine = (.ok (), node'.engine) := by
  rw [promote, Standby.promote, Action.perform_bind, Scene.perform_current] at done
  simp only [standby, Role.isPrimary, Bool.false_eq_true, ↓reduceIte] at done
  obtain ⟨⟨⟩, node₁, promoted, changed⟩ := Action.perform_bind_eq_ok.mp done
  cases changed
  change ((Engine.promote.perform node.engine).1, node.withEngine _) = (.ok (), node₁) at promoted
  obtain ⟨answer, rfl⟩ := Prod.ext_iff.mp promoted
  exact Prod.ext answer rfl

/-! ## The use of the log -/

/-- The engine's log is put to use, and gives out some positions. -/
def Uses (node node' : Node ω) : Prop := ∃ given, Engine.Works node.engine given node'.engine

instance : IsPreorder (Node ω) Uses where
  refl _ := ⟨[], .refl⟩
  trans _ _ _ := fun ⟨_, first⟩ ⟨_, second⟩ => ⟨_, first.trans second⟩

theorem uses_of_same {act : Action (Node ω) α} (same : Obeys SameEngine act) : Obeys Uses act := by
  intro node
  have kept : (act.perform node).2.engine = node.engine := same node
  rw [Uses, kept]
  exact ⟨[], .refl⟩

theorem uses_onEngine {act : Action (Mounted Engine) α} (working : Engine.Working act) :
    Obeys Uses (onEngine act : Action (Node ω) α) := fun node => working node.engine

theorem uses_promote : Obeys Uses (Standby.promote (surroundings w)) := by
  refine Obeys.bind (.reading _) fun c => ?_
  cases c.role with
  | primary => exact .ofExcept (.ok ())
  | standby => exact (uses_onEngine Engine.working_promote).bind fun _ => uses_of_same (sameEngine_change _)

theorem uses_applyShipped (log : Bytes) : Obeys Uses (Standby.applyShipped (surroundings w) log) := by
  refine Obeys.bind (.reading _) fun c => ?_
  cases c.role with
  | primary => exact Obeys.bind (.ofExcept (.error _)) fun _ => uses_onEngine (Engine.working_applyPayload log)
  | standby => exact Obeys.bind (.ofExcept (.ok ())) fun _ => uses_onEngine (Engine.working_applyPayload log)

theorem uses_handshake (peer address : String) : Obeys Uses (Standby.handshake (surroundings w) peer address) := by
  refine Obeys.bind (.reading _) fun c => ?_
  have position : Obeys Uses (surroundings w).position := uses_of_same fun _ => rfl
  cases c.role with
  | primary => exact .ofExcept (.ok ())
  | standby =>
    refine position.bind fun after => ?_
    refine Obeys.bind (uses_of_same ((sameEngine_call _ _ _).bind fun _ => .ofExcept _)) fun payload => ?_
    exact (uses_onEngine (Engine.working_installPayload payload)).bind fun _ => uses_of_same (sameEngine_change _)

theorem uses_tick (peer : String) : Obeys Uses (Standby.tick (surroundings w) peer) := by
  unfold Standby.tick
  refine Obeys.bind (.reading _) fun c => ?_
  cases c.peers.get? peer with
  | none => exact .ofExcept (.ok ())
  | some address =>
    have asking : Obeys SameEngine
        (Peer.askRole ((surroundings w).call .control address) c.node (c.isReadyWith peer)) :=
      (sameEngine_call _ _ _).bind fun _ => .ofExcept _
    refine (uses_of_same asking.outcome).bind fun answer => ?_
    cases answer with
    | error e => exact uses_of_same (sameEngine_change _)
    | ok role =>
      have now : Obeys SameEngine (surroundings w).now := fun _ => rfl
      refine (uses_of_same now).bind fun time => (uses_of_same (sameEngine_change _)).bind fun _ => ?_
      refine Obeys.bind (.reading _) fun c => ?_
      by_cases wants : c.wants peer role = true
      · rw [if_pos wants]
        exact (uses_handshake peer address).outcome.bind fun _ => .ofExcept (.ok ())
      · rw [if_neg wants]
        exact .ofExcept (.ok ())

theorem uses_write (entry : Entry) : Obeys Uses (write w entry) := by
  intro node
  rcases write_engine (w := w) entry node with same | changed
  · rw [Uses, same]
    exact ⟨[], .refl⟩
  · rw [Uses, changed]
    exact Engine.working_change entry node.engine

/-! ## A node by itself -/

/-- What surrounds a node leaves its coordinator alone, if nobody else comes in between. -/
theorem busy_surroundings (clock : ∀ world, ∃ time, (w.now.perform world).1 = .ok time) :
    Traffic.Busy (fun _ x scene => x.coordinator = scene.coordinator) (surroundings w) where
  coordinator seen := seen
  acts _ _ := rfl
  clock scene := clock scene.outside.world
  now _ := Scene.Amid.of_same fun _ _ seen => seen
  call _ _ := Scene.Amid.of_same fun _ _ seen => seen
  snapshot _ :=
    Obeys.bind (Scene.Amid.of_same fun _ _ seen => seen) fun _ => Scene.Amid.of_same fun _ _ seen => seen

end Node
end Shiplog
