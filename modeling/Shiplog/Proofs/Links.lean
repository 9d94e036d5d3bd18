import Shiplog.Proofs.Peerings

/-!
The programs of a node as steps about one of its peers. A tick of the worker of the peer is a run
of its steps and of what others do while it waits, with a course that shows in what is remembered
of it (`tick_runs`, `Course`); promotions, shipped logs and the ticks of other workers are steps
of others (`promote_other`, `takeLog_other`, `tick_other`). So what being up to date with a peer
means holds of the programs themselves (`Linked`).
-/
namespace Shiplog
namespace Peering

open Relation (ReflTransGen)
open Scene (Amid Mirrors perform_current perform_change)

variable {peer : String} {c : Coordinator} {x y : Peering}

/-! ## The worker's program -/

variable {ε α : Type} {s : Surroundings ε} {record : ε → List Note} {scene : Scene ε} {lock : Option Holder}

/-- A node with more notes. -/
def say (x : Peering) (notes : List Note) : Peering := { x with notes := x.notes ++ notes }

@[simp] theorem say_nil (x : Peering) : x.say [] = x := by simp [say]

/-- A scene, and what its surroundings remember of the peer. -/
structure View (record : ε → List Note) (x : Peering) (scene : Scene ε) : Prop where
  coordinator : x.coordinator = scene.coordinator
  notes : x.notes = record scene.outside

/-- A request to the surroundings at which some notes are made before others act and some after,
    and which leaves the lock with the one who had it. -/
def Waits (record : ε → List Note) (peer : String) (lock : Option Holder) (before : List Note)
    (after : Except Error α → List Note) (act : Action (Scene ε) α) : Prop :=
  ∀ scene x, View record x scene → x.holder = lock → ∃ y, ReflTransGen (Other peer) (x.say before) y ∧
    y.holder = lock ∧ View record (y.say (after (act.perform scene).1)) (act.perform scene).2

theorem Waits.still {act : Action (Scene ε) α} (waits : Waits record peer lock [] (fun _ => []) act)
    (view : View record x scene) (held : x.holder = lock) : ∃ y, ReflTransGen (Other peer) x y ∧ y.holder = lock ∧
      View record y (act.perform scene).2 := by
  simpa using waits scene x view held

/-- What surrounds the worker of a peer: they remember what it asks and is answered, and what is
    taken over; while it waits others act, but the lock is its own from when it has it on. -/
structure Attended (record : ε → List Note) (peer : String) (s : Surroundings ε) : Prop where
  clock : ∀ scene, ∃ now, (s.now.perform scene).1 = .ok now
  now : Waits record peer none [] (fun _ => []) s.now
  role : ∀ address node ready, Waits record peer none [.asked (Peer.roleRequest node ready)]
    (fun outcome => [.answered outcome]) (s.call .control address (Peer.roleRequest node ready))
  position : Waits record peer (some .worker) [] (fun _ => []) s.position
  sync : ∀ address node after, Waits record peer (some .worker) [.asked (Peer.syncRequest node after)]
    (fun outcome => [.answered outcome]) (s.call .control address (Peer.syncRequest node after))
  install : ∀ payload, Waits record peer (some .worker) [] (fun outcome => [.installed payload outcome])
    (s.install payload)

theorem perform_askRole (call : Request → Action (Scene ε) Reply) (node : String) (ready : Bool) :
    (Peer.askRole call node ready).perform scene =
      (roleOf ((call (Peer.roleRequest node ready)).perform scene).1,
        ((call (Peer.roleRequest node ready)).perform scene).2) := by
  rw [Peer.askRole, Action.perform_bind]
  rcases (call (Peer.roleRequest node ready)).perform scene with ⟨_ | _, _⟩
  · rfl
  · rfl

theorem perform_askSync (call : Request → Action (Scene ε) Reply) (node : String) (after : Position) :
    (Peer.askSync call node after).perform scene =
      (payloadOf ((call (Peer.syncRequest node after)).perform scene).1,
        ((call (Peer.syncRequest node after)).perform scene).2) := by
  rw [Peer.askSync, Action.perform_bind]
  rcases (call (Peer.syncRequest node after)).perform scene with ⟨_ | _, _⟩
  · rfl
  · rfl

/-- How a registration went that a worker was to make, and what passed at it. -/
inductive Handshake (peer : String) (y : Peering) : List Note → Prop
  | failed (notes : List Note) (nothing : ∀ payload, Note.installed payload (.ok ()) ∉ notes)
      (unready : y.coordinator.isReadyWith peer = false) : Handshake peer y notes
  | synchronized (node : String) (after : Position) (payload : Bytes) (standby : y.coordinator.role = .standby)
      (ready : y.coordinator.isReadyWith peer = true) :
      Handshake peer y [.asked (Peer.syncRequest node after), .answered (.ok (.bulk payload)),
        .installed payload (.ok ())]

/-- The end of a part of a worker's program. -/
def Ends (record : ε → List Note) (peer : String) (x : Peering) (scene : Scene ε) (ends : Peering → Prop) : Prop :=
  ∃ y, ReflTransGen (Step peer) x y ∧ View record y scene ∧ y.holder = none ∧ y.stage = .idle ∧ ends y

/-- What comes after a run of steps comes of the first of them. -/
theorem Ends.after {ends ends' : Peering → Prop} (steps : ReflTransGen (Step peer) x y)
    (later : Ends record peer y scene ends) (follows : ∀ z, ends z → ends' z) : Ends record peer x scene ends' := by
  obtain ⟨z, further, view, free, idle, done⟩ := later
  exact ⟨z, steps.trans further, view, free, idle, follows z done⟩

/-- What a peer sent is taken over, or not. -/
theorem install_runs (attended : Attended record peer s) (sound : Sound peer x) (view : View record x scene)
    {payload : Bytes} (received : x.stage = .received (.ok payload)) :
    Ends record peer x
      ((do s.install payload; Scene.change (·.synchronized peer) : Action (Scene ε) Unit).perform scene).2 fun y =>
        y.notes = x.notes ++ [.installed payload (.ok ())] ∧ y.coordinator.role = .standby ∧
            y.coordinator.isReadyWith peer = true ∨
          (∃ e, y.notes = x.notes ++ [.installed payload (.error e)]) ∧ y.coordinator.isReadyWith peer = false := by
  have held := sound.locked (by rw [received]; trivial)
  obtain ⟨y, others, lock, view'⟩ := attended.install payload scene x view held
  rw [say_nil] at others
  have spared := spared_of_others others
  have sound' := sound.spared spared
  have arrived := (steps_of_others others).tail (.move (.install payload ((s.install payload).perform scene).1
    (spared.stage.trans received)))
  rw [Action.perform_bind]
  rcases installs : (s.install payload).perform scene with ⟨e | ⟨⟩, scene'⟩
  · rw [installs] at arrived view'
    refine ⟨_, arrived.tail (.move (.fail payload e rfl)), ⟨view'.coordinator, view'.notes⟩, rfl, rfl, ?_⟩
    refine .inr ⟨⟨e, ?_⟩, ?_⟩
    · exact congrArg (· ++ [Note.installed payload (.error e)]) spared.notes
    · exact sound'.unready (by rw [spared.stage, received]; trivial)
  · rw [installs] at arrived view'
    refine ⟨_, arrived.tail (.move (.synchronize payload rfl)), ⟨?_, view'.notes⟩, rfl, rfl, .inl ⟨?_, ?_, ?_⟩⟩
    · exact congrArg (Coordinator.synchronized peer) view'.coordinator
    · exact congrArg (· ++ [Note.installed payload (.ok ())]) spared.notes
    · exact sound'.standby lock
    · exact Coordinator.isReadyWith_synchronized ..

/-- A peer is asked to register the node, and what it sends is taken over. -/
theorem sync_runs (attended : Attended record peer s) (sound : Sound peer x) (view : View record x scene)
    {node : String} (admitted : x.stage = .admitted node) (address : String) (after : Position) :
    Ends record peer x
      ((do
        let payload ← Peer.askSync (s.call .control address) node after
        s.install payload
        Scene.change (·.synchronized peer) : Action (Scene ε) Unit).perform scene).2 fun y =>
          ∃ notes, y.notes = x.notes ++ notes ∧ Handshake peer y notes := by
  have held := sound.locked (by rw [admitted]; trivial)
  obtain ⟨y, others, lock, view'⟩ :=
    attended.sync address node after scene { x with stage := .sent } ⟨view.coordinator, view.notes⟩ held
  have spared := spared_of_others others
  have notes : y.notes = x.notes ++ [.asked (Peer.syncRequest node after)] := spared.notes
  rw [Action.perform_bind, perform_askSync]
  rcases calls : (s.call .control address (Peer.syncRequest node after)).perform scene with ⟨outcome, scene'⟩
  rw [calls] at view'
  have sent : Step peer x ({ x with stage := .sent }.say [.asked (Peer.syncRequest node after)]) :=
    .move (.send node after admitted)
  have waited := (ReflTransGen.single sent).trans (steps_of_others others)
  have arrived := waited.tail (.move (.receive outcome spared.stage))
  have sound' := sound.steps arrived
  cases pays : payloadOf outcome with
  | error e =>
    rw [pays] at arrived sound'
    refine ⟨_, arrived.tail (.move (.abandon e rfl)), ⟨view'.coordinator, view'.notes⟩, rfl, rfl, ?_⟩
    refine ⟨[.asked (Peer.syncRequest node after), .answered outcome], by simp [notes], .failed _ (by simp) ?_⟩
    exact sound'.unready trivial
  | ok payload =>
    rw [pays] at arrived sound'
    obtain rfl := payloadOf_eq_ok.1 pays
    refine .after arrived (install_runs attended sound' ⟨view'.coordinator, view'.notes⟩ rfl) fun z done => ?_
    rcases done with ⟨added, standby, ready⟩ | ⟨⟨e, added⟩, unready⟩
    · exact ⟨_, by simp [added, notes], .synchronized node after payload standby ready⟩
    · refine ⟨[.asked (Peer.syncRequest node after), .answered (.ok (.bulk payload)), .installed payload (.error e)],
        by simp [added, notes], .failed _ (by simp) unready⟩

/-- A worker that is to register does so, or fails to. -/
theorem handshake_runs (attended : Attended record peer s) (sound : Sound peer x) (view : View record x scene)
    (wanting : x.stage = .wanting) (free : x.holder = none) (standby : x.coordinator.role = .standby)
    (address : String) :
    Ends record peer x ((Standby.handshake s peer address).perform scene).2 fun y =>
      ∃ notes, y.notes = x.notes ++ notes ∧ Handshake peer y notes := by
  have entered : Step peer x { x with stage := .admitted x.coordinator.node, holder := some .worker } :=
    .move (.enter wanting free standby)
  have view₁ : View record { x with stage := .admitted x.coordinator.node, holder := some .worker } scene :=
    ⟨view.coordinator, view.notes⟩
  obtain ⟨y, others, lock, view'⟩ := attended.position.still view₁ rfl
  have spared := spared_of_others others
  have notes : y.notes = x.notes := spared.notes
  have arrived := (ReflTransGen.single entered).trans (steps_of_others others)
  have sound' := sound.steps arrived
  rw [Standby.handshake, Action.perform_bind, perform_current, ← view.coordinator]
  simp only [standby, Role.isPrimary, Bool.false_eq_true, ↓reduceIte]
  rw [Action.perform_bind]
  rcases asks : s.position.perform scene with ⟨e | after, scene'⟩
  · rw [asks] at view'
    refine ⟨_, arrived.tail (.move (.withdraw _ spared.stage)), ⟨view'.coordinator, view'.notes⟩, rfl, rfl, ?_⟩
    refine ⟨[], by simp [notes], .failed _ (by simp) ?_⟩
    exact sound'.unready (by rw [spared.stage]; trivial)
  · rw [asks] at view'
    refine .after arrived (sync_runs attended sound' view' spared.stage address after) fun z done => ?_
    rw [notes] at done
    exact done

/-- The question and its answer in a tick that starts at a node. -/
def greeting (peer : String) (x : Peering) (outcome : Except Error Reply) : List Note :=
  [.asked (Peer.roleRequest x.coordinator.node (x.coordinator.isReadyWith peer)), .answered outcome]

/-- How a tick went. -/
inductive Course (peer : String) (x y : Peering) : Prop
  | unknown (absent : x.coordinator.peers.get? peer = none) (same : y = x)
  /-- The peer did not tell its role. -/
  | lost (outcome : Except Error Reply) (failed : ∀ role : Role, outcome ≠ .ok (.integer role.code))
      (notes : y.notes = x.notes ++ greeting peer x outcome) (unready : y.coordinator.isReadyWith peer = false)
  /-- There was nothing to register for. -/
  | content (role : Role) (notes : y.notes = x.notes ++ greeting peer x (.ok (.integer role.code)))
      (kept : y.coordinator.isReadyWith peer = true → x.coordinator.isReadyWith peer = true)
  | registered (more : List Note)
      (notes : y.notes = x.notes ++ greeting peer x (.ok (.integer Role.primary.code)) ++ more)
      (handshake : Handshake peer y more)

/-- A worker that knows the peer's role registers with it, or has nothing to register for. -/
theorem heard_runs (attended : Attended record peer s) (sound : Sound peer x) (view : View record x scene) {role : Role}
    (heard : x.stage = .heard role) (free : x.holder = none) (address : String) :
    Ends record peer x
      ((do
        if (← Scene.current).wants peer role then
          let _ ← Action.outcome (Standby.handshake s peer address) : Action (Scene ε) Unit).perform scene).2 fun y =>
        y.notes = x.notes ∧ y.coordinator = x.coordinator ∨
          role = .primary ∧ ∃ notes, y.notes = x.notes ++ notes ∧ Handshake peer y notes := by
  rw [Action.perform_bind_ok (perform_current _), ← view.coordinator]
  cases wants : x.coordinator.wants peer role with
  | false =>
    exact ⟨_, .single (.move (.rest role heard wants)), ⟨view.coordinator, view.notes⟩, free, rfl, .inl ⟨rfl, rfl⟩⟩
  | true =>
    obtain ⟨primary, standby, -⟩ := Coordinator.wants_eq_true _ wants
    have wanting : ReflTransGen (Step peer) x { x with stage := .wanting } := .single (.move (.want role heard wants))
    exact .after wanting (handshake_runs attended (sound.steps wanting) ⟨view.coordinator, view.notes⟩ rfl free standby
      address) fun z done => .inr ⟨primary, done⟩

/-- A worker that has been told a role notes when. -/
theorem told_runs (attended : Attended record peer s) (sound : Sound peer x) (view : View record x scene) {role : Role}
    (told : x.stage = .told (.ok role)) (free : x.holder = none) (address : String) :
    Ends record peer x
      ((do
        let now ← s.now
        Scene.change (·.heard now peer)
        if (← Scene.current).wants peer role then
          let _ ← Action.outcome (Standby.handshake s peer address) : Action (Scene ε) Unit).perform scene).2 fun y =>
        y.notes = x.notes ∧ (y.coordinator.isReadyWith peer = true → x.coordinator.isReadyWith peer = true) ∨
          role = .primary ∧ ∃ notes, y.notes = x.notes ++ notes ∧ Handshake peer y notes := by
  obtain ⟨now, tells⟩ := attended.clock scene
  obtain ⟨y, others, lock, view'⟩ := attended.now.still view free
  have spared := spared_of_others others
  have notes : y.notes = x.notes := spared.notes
  have hearing := (steps_of_others others).tail (.move (.hear role now (spared.stage.trans told)))
  have hears : View record { y with stage := .heard role, coordinator := y.coordinator.heard now peer }
      { (s.now.perform scene).2 with coordinator := (s.now.perform scene).2.coordinator.heard now peer } :=
    ⟨congrArg (Coordinator.heard now peer) view'.coordinator, view'.notes⟩
  rw [Action.perform_bind_ok (Prod.ext tells rfl), Action.perform_bind_ok (perform_change _ _)]
  refine .after hearing (heard_runs attended (sound.steps hearing) hears rfl lock address) fun z done => ?_
  simp only [notes] at done
  refine done.imp_left fun ⟨same, coordinator⟩ => ⟨same, fun ready => spared.ready ?_⟩
  rwa [coordinator, Coordinator.isReadyWith_heard] at ready

/-- A tick is a run of the worker's steps and of what others do meanwhile. -/
theorem tick_runs (attended : Attended record peer s) (sound : Sound peer x) (view : View record x scene)
    (idle : x.stage = .idle) (free : x.holder = none) :
    Ends record peer x ((Standby.tick s peer).perform scene).2 (Course peer x) := by
  rw [Standby.tick, Action.perform_bind_ok (perform_current _), ← view.coordinator]
  cases known : x.coordinator.peers.get? peer with
  | none => exact ⟨x, .refl, view, free, idle, .unknown known rfl⟩
  | some address =>
    have looking : Step peer x { x with stage := .looked x.coordinator.node (x.coordinator.isReadyWith peer) } :=
      .move (.look idle)
    obtain ⟨y, others, lock, view'⟩ := attended.role address x.coordinator.node (x.coordinator.isReadyWith peer) scene
      { x with stage := .asking } ⟨view.coordinator, view.notes⟩ free
    have spared := spared_of_others others
    have notes : y.notes = x.notes ++ [.asked (Peer.roleRequest x.coordinator.node (x.coordinator.isReadyWith peer))] :=
      spared.notes
    have asking : ReflTransGen (Step peer) x y :=
      ((ReflTransGen.single looking).tail (.move (.ask _ _ rfl))).trans (steps_of_others others)
    simp only [Action.perform_bind, Action.perform_outcome, perform_askRole]
    rcases calls : (s.call .control address
      (Peer.roleRequest x.coordinator.node (x.coordinator.isReadyWith peer))).perform scene with ⟨outcome, scene'⟩
    rw [calls] at view'
    have answered := asking.tail (.move (.answer outcome spared.stage))
    cases tells : roleOf outcome with
    | error e =>
      rw [tells] at answered
      have other : ∀ role : Role, outcome ≠ .ok (.integer role.code) := by
        intro role same
        simp [roleOf_eq_ok.2 same] at tells
      refine ⟨_, answered.tail (.move (.lose e rfl)), ⟨congrArg (Coordinator.lost peer) view'.coordinator, view'.notes⟩,
        lock, rfl, .lost outcome other (by simp [notes, greeting]) (Coordinator.isReadyWith_lost ..)⟩
    | ok role =>
      rw [tells] at answered
      obtain rfl := roleOf_eq_ok.1 tells
      have told := told_runs attended (sound.steps answered) ⟨view'.coordinator, view'.notes⟩ rfl lock address
      refine .after answered told fun z done => ?_
      rcases done with ⟨same, kept⟩ | ⟨primary, more, added, handshake⟩
      · exact .content role (by simp [same, notes, greeting]) fun ready => spared.ready (kept ready)
      · subst primary
        exact .registered more (by simp [added, notes, greeting]) handshake

/-! ## The programs of others -/

/-- A node and the worker of a peer, with the handshake lock in given hands. -/
def Held (lock : Option Holder) : Type := { x : Peering // x.holder = lock }

/-- An action that is nothing to the worker of a peer but steps of others, and leaves the lock in
    the hands where it is. -/
abbrev Beside (peer : String) (lock : Option Holder) (act : Action (Scene ε) α) : Prop :=
  Amid (fun (x : Held lock) scene => x.1.coordinator = scene.coordinator)
    (fun x y : Held lock => ReflTransGen (Other peer) x.1 y.1) act

/-- What surrounds the programs of others. -/
structure Among (peer : String) (s : Surroundings ε) : Prop where
  now : Beside peer none s.now
  role : ∀ address node ready, Beside peer none (s.call .control address (Peer.roleRequest node ready))
  position : Beside peer (some .other) s.position
  sync : ∀ address node after, Beside peer (some .other) (s.call .control address (Peer.syncRequest node after))
  install : ∀ payload, Beside peer (some .other) (s.install payload)
  apply : ∀ log, Beside peer (some .other) (s.apply log)
  promote : Beside peer (some .other) s.promote

theorem beside_change {f : Coordinator → Coordinator}
    (step : ∀ x : Peering, x.holder = lock → Other peer x { x with coordinator := f x.coordinator }) :
    Beside peer lock (Scene.change f : Action (Scene ε) Unit) := by
  intro scene x same
  refine ⟨⟨{ x.1 with coordinator := f x.1.coordinator }, x.2⟩, .single (.single (step x.1 x.2)), ?_⟩
  rw [perform_change, ← same]

theorem others_of_runs {x y : Held lock}
    (runs : ReflTransGen (fun x y : Held lock => ReflTransGen (Other peer) x.1 y.1) x y) :
    ReflTransGen (Other peer) x.1 y.1 := by
  induction runs with
  | refl => exact .refl
  | tail _ run ih => exact ih.trans run

/-- The lock is taken for an action and given back after it. -/
theorem beside_locked {act : Action (Scene ε) α} (locked : Beside peer (some .other) act) : Beside peer none act := by
  rintro scene ⟨x, free⟩ same
  obtain ⟨⟨y, taken⟩, runs, reached⟩ := locked scene ⟨{ x with holder := some .other }, rfl⟩ same
  have steps := (ReflTransGen.single (Other.take free)).trans (others_of_runs runs)
  exact ⟨⟨{ y with holder := none }, rfl⟩, .single (steps.tail (.release taken)), reached⟩

theorem handshake_other (among : Among peer s) {other : String} (ne : other ≠ peer) (address : String) :
    Beside peer none (Standby.handshake s other address) := by
  refine Action.Obeys.bind (.reading _) fun c => ?_
  split
  · exact .ofExcept (.ok ())
  · have synchronizing : Beside peer (some .other) (Scene.change (·.synchronized other) : Action (Scene ε) Unit) :=
      beside_change fun x _ => .elsewhere _ rfl (Coordinator.isReadyWith_synchronized_of_ne _ ne.symm)
    exact beside_locked (among.position.bind fun after => ((among.sync _ _ _).bind fun _ => .ofExcept _).bind
      fun payload => (among.install payload).bind fun _ => synchronizing)

/-- The tick of another worker. -/
theorem tick_other (among : Among peer s) {other : String} (ne : other ≠ peer) :
    Beside peer none (Standby.tick s other) := by
  refine Action.Obeys.bind (.reading _) fun c => ?_
  cases c.peers.get? other with
  | none => exact .ofExcept (.ok ())
  | some address =>
    have asking : Beside peer none (Peer.askRole (s.call .control address) c.node (c.isReadyWith other)) :=
      (among.role _ _ _).bind fun _ => .ofExcept _
    refine asking.outcome.bind fun answer => ?_
    cases answer with
    | error e => exact beside_change fun x _ => .elsewhere _ rfl (Coordinator.isReadyWith_lost_of_ne _ ne.symm)
    | ok role =>
      have hearing (now : Nat) : Beside peer none (Scene.change (·.heard now other) : Action (Scene ε) Unit) :=
        beside_change fun x _ => .elsewhere _ rfl (Coordinator.isReadyWith_heard ..)
      refine among.now.bind fun now => (hearing now).bind fun _ => Action.Obeys.bind (.reading _) fun c => ?_
      split
      · exact (handshake_other among ne address).outcome.bind fun _ => .ofExcept (.ok ())
      · exact .ofExcept (.ok ())

theorem promote_other (among : Among peer s) : Beside peer none (Standby.promote s) := by
  refine Action.Obeys.bind (.reading _) fun c => ?_
  split
  · exact .ofExcept (.ok ())
  · have promoting : Beside peer (some .other) (Scene.change (·.promoted) : Action (Scene ε) Unit) :=
      beside_change fun x taken => .promote taken
    exact beside_locked (among.promote.bind fun _ => promoting)

theorem applyShipped_other (among : Among peer s) (log : Bytes) : Beside peer none (Standby.applyShipped s log) := by
  refine Action.Obeys.bind (.reading _) fun c => ?_
  split
  · exact .ofExcept (.error _)
  · exact beside_locked (among.apply log)

theorem becomePrimary_other (among : Among peer s) (args : List Bytes) :
    Beside peer none (Replication.becomePrimary s args) :=
  (promote_other among).bind fun _ => .ofExcept (.ok Reply.ok)

theorem takeLog_other (among : Among peer s) (args : List Bytes) : Beside peer none (Replication.takeLog s args) :=
  Action.Obeys.bind (.ofExcept _) fun log => (applyShipped_other among log).bind fun _ => .ofExcept (.ok Reply.ok)

/-- A promotion that succeeds leaves a primary that is up to date with nobody. -/
theorem Sound.promotes (sound : Sound peer x) (same : x.coordinator = scene.coordinator)
    (done : ((Standby.promote s).perform scene).1 = .ok ()) :
    ((Standby.promote s).perform scene).2.coordinator.role = .primary ∧
      ((Standby.promote s).perform scene).2.coordinator.isReadyWith peer = false := by
  cases role : x.coordinator.role with
  | primary =>
    rw [Service.promote_primary (same ▸ role)]
    exact ⟨same ▸ role, same ▸ sound.primary role⟩
  | standby =>
    rw [Standby.promote, Action.perform_bind_ok (perform_current _), ← same] at done ⊢
    simp only [role, Role.isPrimary, Bool.false_eq_true, ↓reduceIte, Action.perform_bind] at done ⊢
    rcases asks : s.promote.perform scene with ⟨e | ⟨⟩, scene'⟩
    · simp [asks] at done
    · exact ⟨rfl, Coordinator.isReadyWith_promoted ..⟩

/-! ## A node by itself -/

/-- What surroundings are asked that is noted: what a peer is asked and answers, and what is taken
    over. -/
def noteOf : Event → Coordinator → List Note
  | .asks .control _ request, _ => [.asked request]
  | .answers .control _ _ outcome, _ => [.answered outcome]
  | .ends (.install payload) outcome, _ => [.installed payload outcome]
  | _, _ => []

theorem waits_noted {before : List Note} {after : Except Error α → List Note} {act : Action (Scene ε) α}
    (same : ∀ scene, (act.perform scene).2.coordinator = scene.coordinator) (lock : Option Holder) :
    Waits Prod.snd peer lock before after (Scene.noted (fun _ => before) (fun outcome _ => after outcome) act) := by
  intro scene x view held
  refine ⟨x.say before, .refl, held, view.coordinator.trans (same scene.forget).symm, ?_⟩
  change x.notes ++ before ++ after _ = scene.outside.2 ++ before ++ after _
  rw [view.notes]
  rfl

/-- A node by itself, whose clock runs, attends to the worker of each peer. -/
theorem attended_surroundings {ω : Type} (w : World ω) (clock : ∀ world, ∃ now, (w.now.perform world).1 = .ok now) :
    Attended Prod.snd peer ((Node.surroundings w).remembering noteOf) where
  clock scene := clock scene.outside.1.world
  now := waits_noted (fun _ => rfl) _
  role _ _ _ := waits_noted (fun _ => rfl) _
  position := waits_noted (fun _ => rfl) _
  sync _ _ _ := waits_noted (fun _ => rfl) _
  install _ := waits_noted (fun _ => rfl) _

theorem among_surroundings {ω : Type} (w : World ω) : Among peer (Node.surroundings w) where
  now := Amid.of_same fun _ _ same => same
  role _ _ _ := Amid.of_same fun _ _ same => same
  position := Amid.of_same fun _ _ same => same
  sync _ _ _ := Amid.of_same fun _ _ same => same
  install _ := Amid.of_same fun _ _ same => same
  apply _ := Amid.of_same fun _ _ same => same
  promote := Amid.of_same fun _ _ same => same

/-! ## What a node knows of a peer -/

/-- What being up to date with a peer means to a node, at any time. -/
structure Linked (peer : String) (x : Peering) : Prop where
  /-- The node gets up to date only by a payload with which the peer has answered a registration,
      in the tick in which it told that it is primary, and which a standby has taken over. -/
  turns : ∀ y, Step peer x y → x.coordinator.isReadyWith peer = false → y.coordinator.isReadyWith peer = true →
    BroughtUp x.notes ∧ x.coordinator.role = .standby ∧ y.coordinator.role = .standby
  installs : ∀ y payload outcome, Step peer x y → y.notes = x.notes ++ [.installed payload outcome] →
    x.coordinator.role = .standby ∧ x.holder = some .worker
  /-- The role is asked for, and is told by its number only. -/
  hears : x.stage = .asking → ∀ y, Move peer x y → ∃ outcome, y.notes = x.notes ++ [.answered outcome] ∧
    ((∃ role, outcome = .ok (.integer role.code) ∧ y.stage = .told (.ok role)) ∨
      (∀ role : Role, outcome ≠ .ok (.integer role.code)) ∧ ∃ e, y.stage = .told (.error e))
  loses : ∀ e, x.stage = .told (.error e) → ∀ y z, ReflTransGen (Other peer) x y → Move peer y z →
    z.stage = .idle ∧ z.coordinator.isReadyWith peer = false
  registering : x.stage.Registering → x.coordinator.isReadyWith peer = false ∧ ∀ y, Step peer x y →
    y.coordinator.isReadyWith peer = false ∨ ∃ payload, x.stage = .installed payload (.ok ())
  quiet : ∀ y note, Step peer x y → y.notes = x.notes ++ [note] → note.Registers →
    x.coordinator.isReadyWith peer = false ∧ y.coordinator.isReadyWith peer = false ∧ x.coordinator.role = .standby
  silent : x.coordinator.role = .primary → ∀ y, ReflTransGen (Step peer) x y → y.coordinator.role = .primary ∧
    y.coordinator.isReadyWith peer = false ∧ ∃ later, y.notes = x.notes ++ later ∧ ∀ note ∈ later, ¬ note.Registers
  promotes : ∀ {ε : Type} (s : Surroundings ε) (scene : Scene ε), x.coordinator = scene.coordinator →
    ((Standby.promote s).perform scene).1 = .ok () →
      ((Standby.promote s).perform scene).2.coordinator.role = .primary ∧
        ((Standby.promote s).perform scene).2.coordinator.isReadyWith peer = false
  /-- A tick of the worker takes these steps, and its course shows in what is remembered of it. -/
  ticks : ∀ {ε : Type} (s : Surroundings ε) (record : ε → List Note), Attended record peer s → ∀ scene : Scene ε,
    View record x scene → x.stage = .idle → x.holder = none →
      Ends record peer x ((Standby.tick s peer).perform scene).2 (Course peer x)
  remembers : ∀ {ε : Type} (s : Surroundings ε), Mirrors (Standby.tick (s.remembering noteOf) peer) (Standby.tick s peer)
  attended : ∀ {ω : Type} (w : World ω), (∀ world, ∃ now, (w.now.perform world).1 = .ok now) →
    Attended Prod.snd peer ((Node.surroundings w).remembering noteOf)
  /-- Everything else that a node does is steps of others. -/
  others : ∀ {ε : Type} (s : Surroundings ε), Among peer s →
    (∀ other, other ≠ peer → Beside peer none (Standby.tick s other)) ∧ Beside peer none (Standby.promote s) ∧
      (∀ log, Beside peer none (Standby.applyShipped s log)) ∧
        (∀ args, Beside peer none (Replication.becomePrimary s args)) ∧
          ∀ args, Beside peer none (Replication.takeLog s args)
  among : ∀ {ω : Type} (w : World ω), Among peer (Node.surroundings w)
  disowned : Disowned

/-- A standby at rest gets up to date with a peer that answers as a primary does. -/
theorem Reached.brings (reached : Reached peer c x) (idle : x.stage = .idle) (free : x.holder = none)
    (standby : x.coordinator.role = .standby) (unready : x.coordinator.isReadyWith peer = false) :
    ∃ y, Reached peer c y ∧ y.stage = .idle ∧ y.holder = none ∧ y.coordinator.role = .standby ∧
      y.coordinator.isReadyWith peer = true ∧
        x.notes <+: y.notes := by
  have wants : (x.coordinator.heard 0 peer).wants peer .primary = true := by
    have role : (x.coordinator.heard 0 peer).role = .standby := standby
    simp [Coordinator.wants, Role.isPrimary, role, unready]
  have told := ((reached.step (.move (.look idle))).step (.move (.ask _ _ rfl))).step
    (.move (.answer (.ok (.integer Role.primary.code)) rfl))
  have wanting := (told.step (.move (.hear .primary 0 rfl))).step (.move (.want .primary rfl wants))
  have sent := (wanting.step (.move (.enter rfl free standby))).step (.move (.send _ .start rfl))
  have received := sent.step (.move (.receive (.ok (.bulk [])) rfl))
  have installed := received.step (.move (.install [] (.ok ()) rfl))
  exact ⟨_, installed.step (.move (.synchronize [] rfl)), rfl, rfl, standby, Coordinator.isReadyWith_synchronized ..,
    by simp [List.append_assoc]⟩

end Peering
end Shiplog
