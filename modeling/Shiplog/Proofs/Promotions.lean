import Shiplog.Proofs.Memories
import Shiplog.Proofs.Nodes

/-!
A standby that becomes primary. Promotions, shipped logs and handshakes take turns: each has
the handshake lock, reads the role when it has it, and only then calls the hook of the node's
data that it is for (`Turn`). All else happens at any time, calls no hook and leaves the role
(`Free`, `Elsewhere`). So hooks are called on a standby only, and a node is primary only after
its data has been made ready, once (`Sound`). The programs of a node are runs of such steps,
and call just those hooks, as surroundings that remember them show (`promote_runs`,
`applyShipped_runs`, `tick_runs`).
-/
namespace Shiplog

/-- What the handshake lock is taken for. -/
inductive Errand where
  | promote
  | apply (log : Bytes)
  | handshake (peer : String)
  deriving DecidableEq

/-- Whether a hook is called for an errand. -/
def Errand.Calls : Errand → Hook → Prop
  | .promote, hook => hook = .promote
  | .apply log, hook => hook = .apply log
  | .handshake _, hook => ∃ payload, hook = .install payload

/-- How far the holder of the handshake lock is. -/
inductive Progress where
  | entered
  /-- It has found the node a standby. -/
  | admitted
  | calling (hook : Hook)
  | returned (hook : Hook) (outcome : Except Error Unit)

/-- Whether the holder of the handshake lock may leave the role as it is. -/
def Progress.Over : Progress → Prop
  | .admitted => True
  | .returned hook outcome => hook = .promote → ∃ e, outcome = .error e
  | .entered | .calling _ => False

/-- What is noted of the hooks: each call and how it ends, with the role of the node then. -/
inductive HookNote where
  | begins (hook : Hook) (role : Role)
  | ends (hook : Hook) (outcome : Except Error Unit) (role : Role)

namespace HookNote

def role : HookNote → Role
  | .begins _ role => role
  | .ends _ _ role => role

/-- The node's data has been made ready for writes. -/
def isReady : HookNote → Bool
  | .ends .promote (.ok ()) _ => true
  | _ => false

/-- The notes of a hook that is called on a standby. -/
def call (hook : Hook) (outcome : Except Error Unit) : List HookNote :=
  [.begins hook .standby, .ends hook outcome .standby]

/-- What surroundings are asked that is noted. -/
def ofEvent : Event → Coordinator → List HookNote
  | .begins hook, c => [.begins hook c.role]
  | .ends hook outcome, c => [.ends hook outcome c.role]
  | .asks _ _ _, _ | .answers _ _ _ _, _ => []

end HookNote

/-- A coordinator in service, with the notes of the hooks that were called. -/
structure Service where
  coordinator : Coordinator
  /-- Who holds the handshake lock, if anyone does. -/
  holder : Option (Errand × Progress)
  /-- Oldest first. -/
  notes : List HookNote

namespace Service

open Relation (ReflTransGen)
open Scene (Amid Mirrors perform_current perform_change)
open Shiplog.Action (Obeys)

/-! ## Steps -/

def begin (c : Coordinator) : Service := ⟨c, none, []⟩

/-- A service with more notes. -/
def say (x : Service) (notes : List HookNote) : Service := { x with notes := x.notes ++ notes }

@[simp] theorem say_nil (x : Service) : x.say [] = x := by simp [say]

/-- What may happen whoever holds the handshake lock. -/
inductive Free (x : Service) : Service → Prop where
  | elsewhere (c : Coordinator) (role : c.role = x.coordinator.role) : Free x { x with coordinator := c }

/-- What happens about the handshake lock. -/
inductive Turn (x : Service) : Service → Prop where
  | enter (errand : Errand) (free : x.holder = none) : Turn x { x with holder := some (errand, .entered) }
  | pass (errand : Errand) (holder : x.holder = some (errand, .entered)) (standby : x.coordinator.role = .standby) :
      Turn x { x with holder := some (errand, .admitted) }
  | refuse (errand : Errand) (holder : x.holder = some (errand, .entered)) (primary : x.coordinator.role = .primary) :
      Turn x { x with holder := none }
  | call (errand : Errand) (hook : Hook) (holder : x.holder = some (errand, .admitted)) (calls : errand.Calls hook) :
      Turn x { x with
        holder := some (errand, .calling hook)
        notes := x.notes ++ [.begins hook x.coordinator.role] }
  | finish (errand : Errand) (hook : Hook) (outcome : Except Error Unit) (holder : x.holder = some (errand, .calling hook)) :
      Turn x { x with
        holder := some (errand, .returned hook outcome)
        notes := x.notes ++ [.ends hook outcome x.coordinator.role] }
  | promote (errand : Errand) (holder : x.holder = some (errand, .returned .promote (.ok ()))) :
      Turn x { x with coordinator := x.coordinator.promoted, holder := none }
  | leave (errand : Errand) (progress : Progress) (holder : x.holder = some (errand, progress)) (ends : progress.Over) :
      Turn x { x with holder := none }

inductive Step (x : Service) : Service → Prop where
  | free {y : Service} (step : Free x y) : Step x y
  | turn {y : Service} (step : Turn x y) : Step x y

/-- What can come of a coordinator that starts as a standby. -/
inductive Reached (c : Coordinator) : Service → Prop where
  | begin (standby : c.role = .standby) : Reached c (begin c)
  | step {x y : Service} (reached : Reached c x) (step : Step x y) : Reached c y

variable {c : Coordinator} {x y z : Service}

/-! ## Before and after the promotion -/

/-- The node's data has been made ready for writes, once and last of all. -/
def Done (notes : List HookNote) : Prop := ∃ before last, notes = before ++ [last] ∧ last.isReady = true ∧
  ∀ note ∈ before, note.isReady = false

/-- The invariant: hooks are called on a standby only, whoever is past the test of the role still
    finds one, and the node's data has been made ready just when the node is primary or is to be
    in the next step. -/
structure Sound (x : Service) : Prop where
  noted : ∀ note ∈ x.notes, note.role = .standby
  held : ∀ errand progress, x.holder = some (errand, progress) → progress = .entered ∨ x.coordinator.role = .standby
  ready : ∀ errand, x.holder = some (errand, .returned .promote (.ok ())) → Done x.notes
  primary : x.coordinator.role = .primary → Done x.notes
  standby : x.coordinator.role = .standby → (∀ errand, x.holder ≠ some (errand, .returned .promote (.ok ()))) →
    ∀ note ∈ x.notes, note.isReady = false

theorem not_primary {role : Role} (standby : role = .standby) : role ≠ .primary := by
  rw [standby]
  simp

theorem sound_begin (standby : c.role = .standby) : Sound (begin c) where
  noted _ member := absurd member List.not_mem_nil
  held _ _ holder := by cases holder
  ready _ holder := by cases holder
  primary primary := absurd primary (not_primary standby)
  standby _ _ _ member := absurd member List.not_mem_nil

theorem Sound.free (sound : Sound x) (step : Free x y) : Sound y := by
  obtain ⟨c, role⟩ := step
  constructor
  case noted => exact sound.noted
  case held =>
    intro errand progress holder
    exact (sound.held errand progress holder).imp_right role.trans
  case ready => exact sound.ready
  case primary =>
    intro primary
    exact sound.primary (role.symm.trans primary)
  case standby =>
    intro standby holder
    exact sound.standby (role.symm.trans standby) holder

/-- The holder of the lock leaves it to someone who has yet to look at the role. -/
theorem Sound.released (sound : Sound x) (early : ∀ errand, x.holder ≠ some (errand, .returned .promote (.ok ())))
    {holder : Option (Errand × Progress)} (fresh : ∀ errand progress, holder = some (errand, progress) → progress = .entered) :
    Sound { x with holder } where
  noted := sound.noted
  held errand progress holds := .inl (fresh errand progress holds)
  ready errand holds := by cases fresh errand _ holds
  primary := sound.primary
  standby standby _ := sound.standby standby early

/-- The holder of the lock, who has found a standby, goes on. -/
theorem Sound.noting (sound : Sound x) (standby : x.coordinator.role = .standby)
    (early : ∀ errand, x.holder ≠ some (errand, .returned .promote (.ok ()))) {errand : Errand} {progress : Progress}
    {notes : List HookNote} (noted : ∀ note ∈ notes, note.role = .standby) (unready : ∀ note ∈ notes, note.isReady = false)
    (busy : progress ≠ .returned .promote (.ok ())) :
    Sound { x with holder := some (errand, progress), notes := x.notes ++ notes } where
  noted note member := (List.mem_append.mp member).elim (sound.noted note) (noted note)
  held _ _ _ := .inr standby
  ready errand holds := by
    cases holds
    exact absurd rfl busy
  primary primary := absurd primary (not_primary standby)
  standby _ _ note member := (List.mem_append.mp member).elim (sound.standby standby early note) (unready note)

theorem Sound.turn (sound : Sound x) (step : Turn x y) : Sound y := by
  have held (errand : Errand) (progress : Progress) (late : progress ≠ .entered)
      (holder : x.holder = some (errand, progress)) : x.coordinator.role = .standby :=
    (sound.held errand progress holder).resolve_left late
  cases step with
  | enter errand free => exact sound.released (by simp [free]) (by simp)
  | pass errand holder standby =>
    have goes_on : Sound { x with holder := some (errand, .admitted), notes := x.notes ++ [] } :=
      sound.noting standby (by simp [holder]) (by simp) (by simp) (by simp)
    rwa [List.append_nil] at goes_on
  | refuse errand holder primary => exact sound.released (by simp [holder]) (by simp)
  | call errand hook holder calls =>
    have standby := held errand _ (by simp) holder
    exact sound.noting standby (by simp [holder]) (by simp [HookNote.role, standby]) (by simp [HookNote.isReady]) (by simp)
  | finish errand hook outcome holder =>
    have standby := held errand _ (by simp) holder
    by_cases ready : hook = .promote ∧ outcome = .ok ()
    · obtain ⟨rfl, rfl⟩ := ready
      have done : Done (x.notes ++ [.ends .promote (.ok ()) x.coordinator.role]) :=
        ⟨x.notes, _, rfl, rfl, sound.standby standby (by simp [holder])⟩
      refine ⟨fun note member => ?_, fun _ _ _ => .inr standby, fun _ _ => done, fun _ => done, fun _ early => ?_⟩
      · rcases List.mem_append.mp member with old | new
        · exact sound.noted note old
        · rw [List.mem_singleton.mp new]
          exact standby
      · exact absurd rfl (early errand)
    · refine sound.noting standby (by simp [holder]) (by simp [HookNote.role, standby]) ?_ (by simpa using ready)
      intro note member
      obtain rfl := List.mem_singleton.mp member
      cases hook with
      | promote =>
        cases outcome with
        | ok => exact absurd ⟨rfl, rfl⟩ ready
        | error e => rfl
      | _ => rfl
  | promote errand holder =>
    refine ⟨sound.noted, by simp, by simp, fun _ => sound.ready errand holder, fun standby => ?_⟩
    cases standby
  | leave errand progress holder ends =>
    refine sound.released (fun errand' holder' => ?_) (by simp)
    rw [holder, Option.some.injEq, Prod.mk.injEq] at holder'
    obtain ⟨-, rfl⟩ := holder'
    obtain ⟨e, failed⟩ := ends rfl
    cases failed

theorem Sound.step (sound : Sound x) (step : Step x y) : Sound y := by
  cases step with
  | free step => exact sound.free step
  | turn step => exact sound.turn step

theorem Reached.sound (reached : Reached c x) : Sound x := by
  induction reached with
  | begin standby => exact sound_begin standby
  | step reached step ih => exact ih.step step

/-- A primary stays one, and calls no hook. -/
theorem Sound.stays (sound : Sound x) (primary : x.coordinator.role = .primary) (step : Step x y) :
    y.coordinator.role = .primary ∧ y.notes = x.notes := by
  have entered : ∀ errand progress, x.holder = some (errand, progress) → progress = .entered := fun errand progress holder =>
    (sound.held errand progress holder).resolve_right fun standby => not_primary standby primary
  cases step with
  | free step =>
    obtain ⟨c, role⟩ := step
    exact ⟨role.trans primary, rfl⟩
  | turn step =>
    cases step with
    | enter errand free => exact ⟨primary, rfl⟩
    | pass errand holder standby => exact absurd primary (not_primary standby)
    | refuse errand holder _ => exact ⟨primary, rfl⟩
    | call errand hook holder | finish errand hook outcome holder | promote errand holder => cases entered _ _ holder
    | leave errand progress holder ends => exact ⟨primary, rfl⟩

theorem Reached.steps (reached : Reached c x) (steps : ReflTransGen Step x y) : Reached c y := by
  induction steps with
  | refl => exact reached
  | tail _ step ih => exact .step ih step

/-- However long a primary goes on, it stays one, and calls no hook. -/
theorem Reached.stays (reached : Reached c x) (primary : x.coordinator.role = .primary) (steps : ReflTransGen Step x y) :
    y.coordinator.role = .primary ∧ y.notes = x.notes := by
  induction steps with
  | refl => exact ⟨primary, rfl⟩
  | tail steps step ih =>
    obtain ⟨primary', notes⟩ := ih
    obtain ⟨primary'', same⟩ := (reached.steps steps).sound.stays primary' step
    exact ⟨primary'', same.trans notes⟩

theorem countP_of_done {notes : List HookNote} (done : Done notes) : notes.countP HookNote.isReady = 1 := by
  obtain ⟨before, last, rfl, ready, unready⟩ := done
  rw [List.countP_append, List.countP_eq_zero.mpr fun note member => by simp [unready note member]]
  simp [ready]

theorem Sound.once (sound : Sound x) : x.notes.countP HookNote.isReady ≤ 1 := by
  cases role : x.coordinator.role with
  | primary => exact Nat.le_of_eq (countP_of_done (sound.primary role))
  | standby =>
    by_cases early : ∀ errand, x.holder ≠ some (errand, .returned .promote (.ok ()))
    · rw [List.countP_eq_zero.mpr fun note member => by simp [sound.standby role early note member]]
      exact Nat.zero_le 1
    · simp only [ne_eq, not_forall, not_not] at early
      obtain ⟨errand, holder⟩ := early
      exact Nat.le_of_eq (countP_of_done (sound.ready errand holder))

/-- A node whose data could not be made ready is a standby, also when the lock is given back. -/
theorem Sound.fails (sound : Sound x) (step : Step x y) {e : Error} {role : Role}
    (notes : y.notes = x.notes ++ [.ends .promote (.error e) role]) :
    y.coordinator.role = .standby ∧ ∀ z, Step y z → z.coordinator.role = .standby := by
  cases step with
  | free step =>
    cases step
    simp at notes
  | turn step =>
    cases step with
    | finish errand hook outcome holder =>
      simp only [List.append_cancel_left_eq, List.cons.injEq, HookNote.ends.injEq, and_true] at notes
      obtain ⟨rfl, rfl, -⟩ := notes
      have standby : x.coordinator.role = .standby := (sound.held errand _ holder).resolve_left (by simp)
      refine ⟨standby, fun z next => ?_⟩
      cases next with
      | free step =>
        obtain ⟨c, role⟩ := step
        exact role.trans standby
      | turn step =>
        cases step with
        | promote errand holder => simp at holder
        | _ => exact standby
    | _ => simp at notes

/-! ## The programs of a node -/

variable {ε α : Type} {s : Surroundings ε} {record : ε → List HookNote} {scene : Scene ε}

/-- A scene, and what its surroundings remember of the hooks. -/
structure View (record : ε → List HookNote) (x : Service) (scene : Scene ε) : Prop where
  coordinator : x.coordinator = scene.coordinator
  notes : x.notes = record scene.outside

/-- A coordinator in service whose handshake lock is free. -/
def Idle : Type := { x : Service // x.holder = none }

/-- Any steps at whose end the handshake lock is free again. -/
def Idle.Next (x y : Idle) : Prop := ReflTransGen Step x.1 y.1

def Idle.View (record : ε → List HookNote) (x : Idle) (scene : Scene ε) : Prop := Service.View record x.1 scene

/-- A request to the surroundings, by someone who holds the handshake lock, with the notes that
    are made before others act and after: nothing else happens about the lock. -/
def Waits (record : ε → List HookNote) (before : Role → List HookNote) (after : Except Error α → Role → List HookNote)
    (act : Action (Scene ε) α) : Prop :=
  ∀ scene x, View record x scene → x.holder ≠ none → ∃ y, ReflTransGen Free (x.say (before x.coordinator.role)) y ∧
    View record (y.say (after (act.perform scene).1 y.coordinator.role)) (act.perform scene).2

/-- What surrounds a coordinator whose programs share the handshake lock: they remember the hooks
    that they are called for, and how these end, with the role then. While a program waits that
    holds the lock, nothing else happens about it; while a peer is asked for its role, anything
    may. -/
structure Attended (record : ε → List HookNote) (s : Surroundings ε) : Prop where
  now : Amid (Idle.View record) Idle.Next s.now
  role : ∀ address node ready, Amid (Idle.View record) Idle.Next (s.call .control address (Peer.roleRequest node ready))
  position : Waits record (fun _ => []) (fun _ _ => []) s.position
  sync : ∀ address node after,
    Waits record (fun _ => []) (fun _ _ => []) (s.call .control address (Peer.syncRequest node after))
  hook : ∀ hook, Waits record (fun role => [.begins hook role]) (fun outcome role => [.ends hook outcome role]) (s.hook hook)

theorem frees_keep (steps : ReflTransGen Free x y) :
    y.holder = x.holder ∧ y.notes = x.notes ∧ y.coordinator.role = x.coordinator.role := by
  induction steps with
  | refl => exact ⟨rfl, rfl, rfl⟩
  | tail _ step ih =>
    obtain ⟨holder, notes, before⟩ := ih
    obtain ⟨c, role⟩ := step
    exact ⟨holder, notes, role.trans before⟩

theorem steps_of_frees (steps : ReflTransGen Free x y) : ReflTransGen Step x y :=
  ReflTransGen.mono (fun _ _ step => Step.free step) x y steps

/-- A program, from where the handshake lock is free to where it is free again, and what comes
    of it. -/
def Runs (record : ε → List HookNote) (x : Service) (act : Action (Scene ε) α) (scene : Scene ε)
    (ends : Except Error α → Service → Prop) : Prop :=
  ∃ y, ReflTransGen Step x y ∧ y.holder = none ∧ View record y (act.perform scene).2 ∧ ends (act.perform scene).1 y

/-- An action during which nothing is noted, by the holder of the lock. -/
theorem Waits.still {act : Action (Scene ε) α} (waits : Waits record (fun _ => []) (fun _ _ => []) act)
    (view : View record x scene) (held : x.holder ≠ none) :
    ∃ y, ReflTransGen Free x y ∧ View record y (act.perform scene).2 := by
  simpa using waits scene x view held

theorem admitted_steps (errand : Errand) (free : x.holder = none) (standby : x.coordinator.role = .standby) :
    ReflTransGen Step x { x with holder := some (errand, .admitted) } := by
  have entered : Step x { x with holder := some (errand, .entered) } := .turn (.enter errand free)
  exact (ReflTransGen.single entered).tail (.turn (.pass errand rfl standby))

/-- A hook is called for an errand, on a standby, and ends on a standby. -/
theorem hook_runs (attended : Attended record s) (view : View record x scene) {errand : Errand}
    (admitted : x.holder = some (errand, .admitted)) (standby : x.coordinator.role = .standby) (hook : Hook)
    (calls : errand.Calls hook) : ∃ y, ReflTransGen Step x y ∧
      y.holder = some (errand, .returned hook ((s.hook hook).perform scene).1) ∧
      View record y ((s.hook hook).perform scene).2 ∧ y.coordinator.role = .standby ∧
      y.notes = x.notes ++ HookNote.call hook ((s.hook hook).perform scene).1 := by
  obtain ⟨y, others, view'⟩ := attended.hook hook scene { x with holder := some (errand, .calling hook) }
    ⟨view.coordinator, view.notes⟩ (by simp)
  obtain ⟨holder, notes, role⟩ := frees_keep others
  have called : Step x (say { x with holder := some (errand, .calling hook) } [.begins hook x.coordinator.role]) :=
    .turn (.call errand hook admitted calls)
  have returned := Step.turn (.finish errand hook ((s.hook hook).perform scene).1 holder)
  refine ⟨_, .head called ((steps_of_frees others).tail returned), rfl, ⟨view'.coordinator, view'.notes⟩,
    role.trans standby, ?_⟩
  change y.notes ++ _ = _
  have standby' : y.coordinator.role = .standby := role.trans standby
  rw [notes, standby']
  simp [say, HookNote.call, standby]

/-- The promotion of a primary changes nothing. -/
theorem promote_primary (primary : scene.coordinator.role = .primary) :
    (Standby.promote s).perform scene = (.ok (), scene) := by
  rw [Standby.promote, Action.perform_bind, perform_current]
  simp only [primary, Role.isPrimary, ↓reduceIte, Action.perform_pure]

/-- A promotion makes the data of a standby ready, once, and changes the role just if that
    succeeds. -/
theorem promote_runs (attended : Attended record s) (view : View record x scene) (free : x.holder = none) :
    Runs record x (Standby.promote s) scene fun answer y =>
      (x.coordinator.role = .primary → answer = .ok () ∧ y = x) ∧
      (x.coordinator.role = .standby → y.notes = x.notes ++ HookNote.call .promote answer ∧
        (answer = .ok () ∧ y.coordinator.role = .primary ∨ (∃ e, answer = .error e) ∧ y.coordinator.role = .standby)) := by
  have same := view.coordinator
  cases role : x.coordinator.role with
  | primary =>
    rw [Runs, promote_primary (same ▸ role)]
    exact ⟨x, .refl, free, view, fun _ => ⟨rfl, rfl⟩, by simp⟩
  | standby =>
    have admitted := admitted_steps .promote free role
    obtain ⟨y, called, holder, view', standby, notes⟩ := hook_runs attended
      (x := { x with holder := some (.promote, .admitted) }) ⟨same, view.notes⟩ rfl role .promote rfl
    have arrived := admitted.trans called
    rw [Runs, Standby.promote, Action.perform_bind, perform_current, ← same]
    simp only [role, Role.isPrimary, Bool.false_eq_true, ↓reduceIte, Action.perform_bind]
    change View record y (s.promote.perform scene).2 at view'
    change y.holder = some (_, .returned _ (s.promote.perform scene).1) at holder
    change y.notes = x.notes ++ HookNote.call .promote (s.promote.perform scene).1 at notes
    rcases asks : s.promote.perform scene with ⟨e | ⟨⟩, scene'⟩
    · rw [asks] at view' holder notes
      refine ⟨_, arrived.tail (.turn (.leave _ _ holder fun _ => ⟨e, rfl⟩)), rfl, ⟨view'.coordinator, view'.notes⟩, by simp,
        fun _ => ⟨notes, .inr ⟨⟨e, rfl⟩, standby⟩⟩⟩
    · rw [asks] at view' holder notes
      refine ⟨_, arrived.tail (.turn (.promote _ holder)), rfl, ⟨?_, view'.notes⟩, by simp,
        fun _ => ⟨notes, .inl ⟨rfl, rfl⟩⟩⟩
      exact congrArg Coordinator.promoted view'.coordinator

/-- A primary takes no shipped log, and nothing changes. -/
theorem applyShipped_primary (primary : scene.coordinator.role = .primary) (log : Bytes) :
    ∃ e, (Standby.applyShipped s log).perform scene = (.error e, scene) := by
  refine ⟨.replication "refusing shipped log: node is primary", ?_⟩
  rw [Standby.applyShipped, Action.perform_bind, perform_current]
  simp only [primary, Role.isPrimary, ↓reduceIte, Action.perform_bind, Action.perform_throw]

/-- A standby hands a shipped log to its data. -/
theorem applyShipped_runs (attended : Attended record s) (view : View record x scene) (free : x.holder = none)
    (log : Bytes) :
    Runs record x (Standby.applyShipped s log) scene fun answer y =>
      (x.coordinator.role = .primary → (∃ e, answer = .error e) ∧ y = x) ∧
      (x.coordinator.role = .standby →
        y.notes = x.notes ++ HookNote.call (.apply log) answer ∧ y.coordinator.role = .standby) := by
  have same := view.coordinator
  cases role : x.coordinator.role with
  | primary =>
    obtain ⟨e, refused⟩ := applyShipped_primary (s := s) (same ▸ role) log
    rw [Runs, refused]
    exact ⟨x, .refl, free, view, fun _ => ⟨⟨e, rfl⟩, rfl⟩, by simp⟩
  | standby =>
    have admitted := admitted_steps (.apply log) free role
    obtain ⟨y, called, holder, view', standby, notes⟩ := hook_runs attended
      (x := { x with holder := some (.apply log, .admitted) }) ⟨same, view.notes⟩ rfl role (.apply log) rfl
    have left := (admitted.trans called).tail (.turn (.leave _ _ holder (by simp [Progress.Over])))
    rw [Runs, Standby.applyShipped, Action.perform_bind, perform_current, ← same]
    simp only [role, Role.isPrimary, Bool.false_eq_true, ↓reduceIte]
    exact ⟨_, left, rfl, ⟨view'.coordinator, view'.notes⟩, by simp, fun _ => ⟨notes, standby⟩⟩

/-- What comes of a handshake: a primary makes none, and a standby has its data take ends at most
    one payload. -/
def Shaken (x : Service) (answer : Except Error Unit) (y : Service) : Prop :=
  (x.coordinator.role = .primary → answer = .ok () ∧ y = x) ∧
  (x.coordinator.role = .standby → y.coordinator.role = .standby ∧
    ((∃ e, answer = .error e) ∧ y.notes = x.notes ∨
      ∃ payload, y.notes = x.notes ++ HookNote.call (.install payload) answer))

/-- The data takes ends what a primary sent, or refuses it. -/
theorem install_runs (attended : Attended record s) (view : View record x scene) {peer : String} (payload : Bytes)
    (admitted : x.holder = some (.handshake peer, .admitted)) (standby : x.coordinator.role = .standby) :
    Runs record x (do s.install payload; Scene.change (·.synchronized peer)) scene fun answer y =>
      y.coordinator.role = .standby ∧ y.notes = x.notes ++ HookNote.call (.install payload) answer := by
  obtain ⟨y, called, holder, view', role, notes⟩ :=
    hook_runs attended view admitted standby (.install payload) ⟨payload, rfl⟩
  change View record y ((s.install payload).perform scene).2 at view'
  change y.holder = some (_, .returned _ ((s.install payload).perform scene).1) at holder
  change y.notes = x.notes ++ HookNote.call (.install payload) ((s.install payload).perform scene).1 at notes
  rw [Runs, Action.perform_bind]
  rcases installs : (s.install payload).perform scene with ⟨e | ⟨⟩, scene'⟩
  · rw [installs] at view' holder notes
    exact ⟨_, called.tail (.turn (.leave _ _ holder (by simp [Progress.Over]))), rfl,
      ⟨view'.coordinator, view'.notes⟩, role, notes⟩
  · rw [installs] at view' holder notes
    have synchronized : Step y { y with coordinator := y.coordinator.synchronized peer } := .free (.elsewhere _ rfl)
    refine ⟨_, (called.tail synchronized).tail (.turn (.leave _ _ holder (by simp [Progress.Over]))), rfl,
      ⟨?_, view'.notes⟩, role, notes⟩
    exact congrArg (Coordinator.synchronized peer) view'.coordinator

/-- The position of a standby's log is read, and a peer is asked to register the node. -/
theorem ask_runs (attended : Attended record s) (view : View record x scene) (held : x.holder ≠ none) (address node : String) :
    ∃ y, ReflTransGen Free x y ∧ View record y ((do
      let after ← s.position
      Peer.askSync (s.call .control address) node after : Action (Scene ε) Bytes).perform scene).2 := by
  obtain ⟨y, others, view'⟩ := attended.position.still view held
  rw [Action.perform_bind]
  rcases asks : s.position.perform scene with ⟨e | after, scene'⟩
  · rw [asks] at view'
    exact ⟨y, others, view'⟩
  · rw [asks] at view'
    have held' : y.holder ≠ none := by rwa [(frees_keep others).1]
    obtain ⟨z, further, view''⟩ := (attended.sync address node after).still view' held'
    refine ⟨z, others.trans further, ?_⟩
    simp only [Peer.askSync, Action.perform_bind]
    rcases calls : (s.call .control address (Peer.syncRequest node after)).perform scene' with ⟨_ | _, scene''⟩
    · rwa [calls] at view''
    · rwa [calls] at view''

/-- A handshake asks a primary with the lock held, and hands its answer to the data. -/
theorem handshake_runs (attended : Attended record s) (view : View record x scene) (free : x.holder = none)
    (peer address : String) : Runs record x (Standby.handshake s peer address) scene (Shaken x) := by
  have same := view.coordinator
  rw [Runs, Standby.handshake, Action.perform_bind, perform_current, ← same]
  cases role : x.coordinator.role with
  | primary =>
    simp only [role, Role.isPrimary, ↓reduceIte, Action.perform_pure]
    exact ⟨x, .refl, free, view, fun _ => ⟨rfl, rfl⟩, by simp [role]⟩
  | standby =>
    simp only [role, Role.isPrimary, Bool.false_eq_true, ↓reduceIte]
    rw [← bind_assoc, Action.perform_bind]
    obtain ⟨y, others, view'⟩ := ask_runs attended (x := { x with holder := some (.handshake peer, .admitted) })
      ⟨same, view.notes⟩ (by simp) address x.coordinator.node
    obtain ⟨holder, notes, standby⟩ := frees_keep others
    have arrived := (admitted_steps (.handshake peer) free role).trans (steps_of_frees others)
    rcases asks : (do
        let after ← s.position
        Peer.askSync (s.call .control address) x.coordinator.node after : Action (Scene ε) Bytes).perform scene
      with ⟨e | payload, scene'⟩
    · rw [asks] at view'
      exact ⟨_, arrived.tail (.turn (.leave _ _ holder trivial)), rfl, ⟨view'.coordinator, view'.notes⟩, by simp [role],
        fun _ => ⟨standby.trans role, .inl ⟨⟨e, rfl⟩, notes⟩⟩⟩
    · rw [asks] at view'
      obtain ⟨z, further, done, view'', standby', notes'⟩ :=
        install_runs attended view' payload holder (standby.trans role)
      rw [notes] at notes'
      exact ⟨z, arrived.trans further, done, view'', by simp [role], fun _ => ⟨standby', .inr ⟨payload, notes'⟩⟩⟩

/-! ## A tick -/

/-- The part of a tick before the handshake: a peer is asked for its role. It gives the address of
    a peer to register with. -/
def listen (s : Surroundings ε) (peer : String) : Action (Scene ε) (Option String) := do
  let c ← Scene.current
  match c.peers.get? peer with
  | none => return none
  | some address =>
    match ← Action.outcome (Peer.askRole (s.call .control address) c.node (c.isReadyWith peer)) with
    | .error _ =>
      Scene.change (·.lost peer)
      return none
    | .ok role =>
      let now ← s.now
      Scene.change (·.heard now peer)
      return if (← Scene.current).wants peer role then some address else none

/-- A tick listens to a peer, and may shake hands with it. -/
theorem perform_tick (s : Surroundings ε) (peer : String) (scene : Scene ε) :
    (Standby.tick s peer).perform scene =
      match (listen s peer).perform scene with
      | (.ok (some address), scene') => (.ok (), ((Standby.handshake s peer address).perform scene').2)
      | (.ok none, scene') => (.ok (), scene')
      | (.error e, scene') => (.error e, scene') := by
  rw [Standby.tick, listen, Action.perform_bind_ok (perform_current _), Action.perform_bind_ok (perform_current _)]
  cases scene.coordinator.peers.get? peer with
  | none => rfl
  | some address =>
    simp only [Action.perform_bind, Action.perform_outcome]
    rcases (Peer.askRole (s.call .control address) scene.coordinator.node (scene.coordinator.isReadyWith peer)).perform scene
      with ⟨e | role, scene'⟩
    · rfl
    · simp only [Action.perform_bind]
      rcases s.now.perform scene' with ⟨e | now, scene''⟩
      · rfl
      · simp only [perform_change, perform_current, Action.perform_pure]
        split
        · rfl
        · rfl

/-- To listen to a peer is to ask it for its role, to look at the time, and to change what leaves
    the role of the node. -/
theorem obeys_listen {R : Scene ε → Scene ε → Prop} [IsPreorder (Scene ε) R]
    (asks : ∀ address node ready, Obeys R (s.call .control address (Peer.roleRequest node ready))) (now : Obeys R s.now)
    (changes : ∀ {f : Coordinator → Coordinator}, (∀ c, (f c).role = c.role) →
      Obeys R (Scene.change f : Action (Scene ε) Unit)) (peer : String) : Obeys R (listen s peer) := by
  refine Obeys.bind (.reading _) fun c => ?_
  cases c.peers.get? peer with
  | none => exact .ofExcept (.ok none)
  | some address =>
    have asking : Obeys R (Peer.askRole (s.call .control address) c.node (c.isReadyWith peer)) :=
      (asks _ _ _).bind fun _ => .ofExcept _
    refine asking.outcome.bind fun answer => ?_
    cases answer with
    | error e =>
      have losing : Obeys R (Scene.change (·.lost peer) : Action (Scene ε) Unit) := changes fun _ => rfl
      exact losing.bind fun _ => .ofExcept (.ok none)
    | ok role =>
      have hearing (time : Nat) : Obeys R (Scene.change (·.heard time peer) : Action (Scene ε) Unit) := changes fun _ => rfl
      exact now.bind fun time => (hearing time).bind fun _ => Obeys.bind (.reading _) fun c => .ofExcept (.ok _)

/-- A change that leaves the role. -/
theorem amid_change {f : Coordinator → Coordinator} (role : ∀ c, (f c).role = c.role) :
    Amid (Idle.View record) Idle.Next (Scene.change f : Action (Scene ε) Unit) := by
  rintro scene ⟨x, free⟩ ⟨same, notes⟩
  refine ⟨⟨{ x with coordinator := f x.coordinator }, free⟩, .single (.single (.free (.elsewhere _ (role _)))), ?_, notes⟩
  rw [perform_change, ← show x.coordinator = scene.coordinator from same]

/-- While a node listens to a peer, others act. -/
theorem listen_runs (attended : Attended record s) (peer : String) :
    Amid (Idle.View record) Idle.Next (listen s peer) :=
  obeys_listen attended.role attended.now amid_change peer

theorem steps_of_next {x y : Idle} (runs : ReflTransGen Idle.Next x y) : ReflTransGen Step x.1 y.1 := by
  induction runs with
  | refl => exact .refl
  | tail _ run ih => exact ih.trans run

/-- A tick has the data of a standby take ends at most one payload, once it has listened. -/
theorem tick_runs (attended : Attended record s) (view : View record x scene) (free : x.holder = none) (peer : String) :
    Runs record x (Standby.tick s peer) scene fun _ z => ∃ y, ReflTransGen Step x y ∧ y.holder = none ∧
      View record y ((listen s peer).perform scene).2 ∧ (z = y ∨ ∃ answer, Shaken y answer z) := by
  obtain ⟨⟨y, free'⟩, runs, view'⟩ := listen_runs attended peer scene ⟨x, free⟩ view
  have steps : ReflTransGen Step x y := steps_of_next runs
  change View record y _ at view'
  rw [Runs, perform_tick]
  rcases listens : (listen s peer).perform scene with ⟨e | address, scene'⟩
  · rw [listens] at view'
    exact ⟨y, steps, free', view', y, steps, free', view', .inl rfl⟩
  · rw [listens] at view'
    cases address with
    | none => exact ⟨y, steps, free', view', y, steps, free', view', .inl rfl⟩
    | some address =>
      obtain ⟨z, further, done, ends, shaken⟩ := handshake_runs attended view' free' peer address
      exact ⟨z, steps.trans further, done, ends, y, steps, free', view', .inr ⟨_, shaken⟩⟩

/-! ## Commands -/

/-- A promotion over the wire is a promotion. -/
theorem perform_becomePrimary (args : List Bytes) :
    (Replication.becomePrimary s args).perform scene =
      (((Standby.promote s).perform scene).1.map fun _ => .ok, ((Standby.promote s).perform scene).2) := by
  rw [Replication.becomePrimary, Action.perform_bind]
  rcases (Standby.promote s).perform scene with ⟨_ | _, scene'⟩
  · rfl
  · rfl

/-- A shipped log over the wire is a shipped log. -/
theorem perform_takeLog (args : List Bytes) :
    (Replication.takeLog s args).perform scene =
      match Replication.argument args 1 "record" with
      | .ok log => (((Standby.applyShipped s log).perform scene).1.map fun _ => .ok,
          ((Standby.applyShipped s log).perform scene).2)
      | .error e => (.error e, scene) := by
  rw [Replication.takeLog, Action.perform_bind, Action.perform_ofExcept]
  cases Replication.argument args 1 "record" with
  | error e => rfl
  | ok log =>
    simp only [Action.perform_bind]
    rcases (Standby.applyShipped s log).perform scene with ⟨_ | _, scene'⟩
    · rfl
    · rfl

/-- A primary answers every shipped log with an error, and nothing changes. -/
theorem takeLog_primary (primary : scene.coordinator.role = .primary) (args : List Bytes) :
    ∃ e, (Replication.takeLog s args).perform scene = (.error e, scene) := by
  rw [perform_takeLog]
  cases Replication.argument args 1 "record" with
  | error e => exact ⟨e, rfl⟩
  | ok log =>
    obtain ⟨e, refused⟩ := applyShipped_primary (s := s) primary log
    exact ⟨e, by simp only [refused, Except.map]⟩

/-! ## All else -/

/-- All else that a node does, as a relation sees it. -/
structure Elsewhere (R : Scene ε → Scene ε → Prop) (s : Surroundings ε) : Prop where
  listens : ∀ peer, Obeys R (listen s peer)
  registers : ∀ node after, Obeys R (Primary.register s node after)
  ships : ∀ log, Obeys R (Primary.ship s log)
  flushes : Obeys R (Primary.flushAll s)
  reaps : Obeys R (Primary.reap s)
  greets : ∀ args, Obeys R (Replication.tellRole s args)

/-- All else is made of calls to peers, the time, snapshots, and changes that leave the role. -/
theorem elsewhere {R : Scene ε → Scene ε → Prop} [IsPreorder (Scene ε) R] (spared : Primary.Spared R s)
    (snapshot : ∀ after, Obeys R (s.snapshot after)) : Elsewhere R s where
  listens peer := obeys_listen (fun _ _ _ => spared.call _ _ _) spared.now spared.changes peer
  registers node after := Primary.obeys_register spared snapshot node after
  ships log := Primary.obeys_ship spared log
  flushes := Primary.obeys_flushAll spared
  reaps := Primary.obeys_reap spared
  greets args := by
    have greeting : Obeys R (Replication.greet s args) := by
      unfold Replication.greet
      cases args[1]? with
      | none => exact .ofExcept (.ok ())
      | some arg =>
        refine Obeys.bind (.ofExcept _) fun node => (Primary.obeys_touch spared node).bind fun registered => ?_
        refine Obeys.bind (.reading _) fun c => ?_
        split
        · exact .ofExcept (.error _)
        · exact .ofExcept (.ok ())
    exact greeting.bind fun _ => Obeys.bind (.reading _) fun c => .ofExcept (.ok _)

/-! ## A node by itself -/

theorem waits_noted {before : Role → List HookNote} {after : Except Error α → Role → List HookNote}
    {act : Action (Scene ε) α} (same : ∀ scene, (act.perform scene).2.coordinator = scene.coordinator) :
    Waits Prod.snd before after (Scene.noted (fun c => before c.role) (fun outcome c => after outcome c.role) act) := by
  intro scene x view held
  refine ⟨x.say (before x.coordinator.role), .refl, view.coordinator.trans (same scene.forget).symm, ?_⟩
  have role : x.coordinator.role = scene.coordinator.role := congrArg Coordinator.role view.coordinator
  have role' : (act.perform scene.forget).2.coordinator.role = scene.coordinator.role :=
    congrArg Coordinator.role (same scene.forget)
  change x.notes ++ before x.coordinator.role ++ after (act.perform scene.forget).1 x.coordinator.role =
    scene.outside.2 ++ before scene.coordinator.role ++
      after (act.perform scene.forget).1 (act.perform scene.forget).2.coordinator.role
  rw [view.notes, role, role']

theorem amid_unnoted {act : Action (Scene ε) α} (same : ∀ scene, (act.perform scene).2.coordinator = scene.coordinator) :
    Amid (Idle.View Prod.snd) Idle.Next (Scene.unnoted act) := by
  refine Amid.of_same fun scene x view => ⟨view.coordinator.trans (same scene.forget).symm, ?_⟩
  rw [Scene.unnoted, Scene.perform_noted, List.append_nil, List.append_nil]
  exact view.notes

/-- A node by itself attends to its programs. -/
theorem attended_surroundings {ω : Type} (w : World ω) :
    Attended Prod.snd ((Node.surroundings w).remembering HookNote.ofEvent) where
  now := amid_unnoted fun _ => rfl
  role _ _ _ := amid_unnoted fun _ => rfl
  position := waits_noted fun _ => rfl
  sync _ _ _ := waits_noted fun _ => rfl
  hook hook := by
    rw [Surroundings.hook_remembering]
    refine waits_noted fun scene => ?_
    cases hook <;> rfl

/-! ## What a node promises -/

/-- What holds of a node at any time before and after its promotion. -/
structure Serves (x : Service) : Prop where
  /-- A primary stays one, and calls no hook. -/
  stays : x.coordinator.role = .primary → ∀ y, ReflTransGen Step x y →
    y.coordinator.role = .primary ∧ y.notes = x.notes
  /-- Hooks are called on a standby only, and end on a standby. -/
  noted : ∀ note ∈ x.notes, note.role = .standby
  once : x.notes.countP HookNote.isReady ≤ 1
  first : x.coordinator.role = .primary → ∃ note ∈ x.notes, note.isReady = true
  fails : ∀ y e role, Step x y → y.notes = x.notes ++ [.ends .promote (.error e) role] →
    y.coordinator.role = .standby ∧ ∀ z, Step y z → z.coordinator.role = .standby
  /-- The programs of the node take these steps, and call the hooks that are noted. -/
  promotes : ∀ {ε : Type} (s : Surroundings ε) (record : ε → List HookNote), Attended record s → ∀ scene,
    View record x scene → x.holder = none → Runs record x (Standby.promote s) scene fun answer y =>
      (x.coordinator.role = .primary → answer = .ok () ∧ y = x) ∧
      (x.coordinator.role = .standby → y.notes = x.notes ++ HookNote.call .promote answer ∧
        (answer = .ok () ∧ y.coordinator.role = .primary ∨ (∃ e, answer = .error e) ∧ y.coordinator.role = .standby))
  takes : ∀ {ε : Type} (s : Surroundings ε) (record : ε → List HookNote), Attended record s → ∀ scene,
    View record x scene → x.holder = none → ∀ log, Runs record x (Standby.applyShipped s log) scene fun answer y =>
      (x.coordinator.role = .primary → (∃ e, answer = .error e) ∧ y = x) ∧
      (x.coordinator.role = .standby →
        y.notes = x.notes ++ HookNote.call (.apply log) answer ∧ y.coordinator.role = .standby)
  ticks : ∀ {ε : Type} (s : Surroundings ε) (record : ε → List HookNote), Attended record s → ∀ scene,
    View record x scene → x.holder = none → ∀ peer, Runs record x (Standby.tick s peer) scene fun _ z =>
      ∃ y, ReflTransGen Step x y ∧ y.holder = none ∧ View record y ((listen s peer).perform scene).2 ∧
        (z = y ∨ ∃ answer, Shaken y answer z)
  /-- All else that the node does calls no hook and leaves the role: it is what calls to peers,
      the time, snapshots, and changes that leave the role come to. -/
  others : ∀ {ε : Type} (s : Surroundings ε) (R : Scene ε → Scene ε → Prop) [IsPreorder (Scene ε) R],
    Primary.Spared R s → (∀ after, Obeys R (s.snapshot after)) → Elsewhere R s
  overWire : ∀ {ε : Type} (s : Surroundings ε) (scene : Scene ε) args,
    (Replication.becomePrimary s args).perform scene =
        (((Standby.promote s).perform scene).1.map fun _ => .ok, ((Standby.promote s).perform scene).2) ∧
      (Replication.takeLog s args).perform scene =
        match Replication.argument args 1 "record" with
        | .ok log => (((Standby.applyShipped s log).perform scene).1.map fun _ => .ok,
            ((Standby.applyShipped s log).perform scene).2)
        | .error e => (.error e, scene)
  /-- What is remembered of a program makes no difference to it. -/
  remembers : ∀ {ε : Type} (s : Surroundings ε), Mirrored (s.remembering HookNote.ofEvent) s ∧
    Mirrors (Standby.promote (s.remembering HookNote.ofEvent)) (Standby.promote s) ∧
    (∀ log, Mirrors (Standby.applyShipped (s.remembering HookNote.ofEvent) log) (Standby.applyShipped s log)) ∧
    ∀ peer, Mirrors (Standby.tick (s.remembering HookNote.ofEvent) peer) (Standby.tick s peer)
  attended : ∀ {ω : Type} (w : World ω), Attended Prod.snd ((Node.surroundings w).remembering HookNote.ofEvent)
  /-- A primary answers every shipped log with an error. -/
  refuses : x.coordinator.role = .primary → ∀ {ε : Type} (s : Surroundings ε) (scene : Scene ε),
    x.coordinator = scene.coordinator → ∀ args, ∃ e, (Replication.takeLog s args).perform scene = (.error e, scene)
  /-- A standby takes no writes. -/
  writes : x.coordinator.role = .standby → ∀ {ω : Type} (w : World ω) (node : Node ω), x.coordinator = node.coordinator →
    ∀ entry, (Node.write w entry).perform node = (.error .notPrimary, node)
  /-- What is written after a promotion has a later position than all that the log gave out
      before, in this life of the node and in those before it. -/
  positions : ∀ {ω : Type} (w : World ω) {berth : Berth} {bound : Nat} {logged : List LoggedEntry}
    {node₀ node₁ node₂ node₃ node₄ : Node ω} {earlier given given' : List Position} {entry : Entry} {p : Position},
    Engine.Lived berth node₀.engine bound logged earlier → node₀.engine.item.log.mounted = true → bound < 2 ^ 64 →
    Engine.Works node₀.engine given node₁.engine → node₁.coordinator.role = .standby →
    (Node.promote w).perform node₁ = (.ok (), node₂) → Engine.Works node₂.engine given' node₃.engine →
    (Node.write w entry).perform node₃ = (.ok p, node₄) → ∀ q ∈ earlier ++ given, q < p
  uses : ∀ {ω : Type} (w : World ω), Obeys Node.Uses (Standby.promote (Node.surroundings w)) ∧
    (∀ log, Obeys Node.Uses (Standby.applyShipped (Node.surroundings w) log)) ∧
    (∀ peer, Obeys Node.Uses (Standby.tick (Node.surroundings w) peer)) ∧
    ∀ entry, Obeys Node.Uses (Node.write w entry)

end Service
end Shiplog
