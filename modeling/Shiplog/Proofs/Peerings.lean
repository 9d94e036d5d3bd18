import Shiplog.Proofs.Disownings
import Shiplog.Proofs.Promotions

/-!
A node and one of its peers. A worker asks the peer for its role at every tick, and with the
handshake lock registers with it (`Move`); everything else that happens on the node leaves what
it knows of this peer alone, or is a promotion, which takes the same lock (`Other`). So the node
gets up to date with the peer only when it has taken over what the peer sent, as a standby
(`Sound.turns`), and is so until the peer does not tell its role (`loses`) or the node becomes
primary (`Reached.silent`); and only while it is not does it ask to be registered (`Sound.quiet`).
-/
namespace Shiplog

/-- What passes between a node and a peer, and what the node makes of it. -/
inductive Note where
  | asked (request : Request)
  | answered (outcome : Except Error Reply)
  /-- The node's data took over a payload, or failed to. -/
  | installed (payload : Bytes) (outcome : Except Error Unit)

/-- A note of a registration that was asked for. -/
def Note.Registers (note : Note) : Prop := ∃ node after, note = .asked (Peer.syncRequest node after)

/-- Who holds the handshake lock. -/
inductive Holder where
  | worker
  /-- A promotion, a shipped log or the worker of another peer. -/
  | other
  deriving DecidableEq

/-- How far the worker of a peer is with its tick. -/
inductive Stage where
  | idle
  /-- It has looked what to tell the peer of this node. -/
  | looked (node : String) (ready : Bool)
  /-- It has asked the peer for its role. -/
  | asking
  | told (answer : Except Error Role)
  /-- It has noted when the peer told its role. -/
  | heard (role : Role)
  /-- It is to register, once it has the handshake lock. -/
  | wanting
  /-- It has the lock, and has found the node a standby. -/
  | admitted (node : String)
  /-- It has asked to be registered. -/
  | sent
  | received (answer : Except Error Bytes)
  | installed (payload : Bytes) (outcome : Except Error Unit)

namespace Stage

/-- The worker is to register, or is about it. -/
def Registering : Stage → Prop
  | wanting | admitted _ | sent | received _ | installed _ _ => True
  | idle | looked _ _ | asking | told _ | heard _ => False

/-- The worker has the handshake lock. -/
def Locked : Stage → Prop
  | admitted _ | sent | received _ | installed _ _ => True
  | idle | looked _ _ | asking | told _ | heard _ | wanting => False

end Stage

/-- A coordinator and the worker of one of its peers. -/
structure Peering where
  coordinator : Coordinator
  holder : Option Holder
  stage : Stage
  /-- What has passed between the node and the peer, oldest first. -/
  notes : List Note

namespace Coordinator

variable (c : Coordinator) (peer peer' : String)

theorem isReadyWith_insert (link : Link) :
    { c with links := c.links.insert peer link }.isReadyWith peer' =
      if peer' = peer then link.ready else c.isReadyWith peer' := by
  simp only [isReadyWith, OrderedMap.get?_insert]
  split <;> rfl

theorem ready_link : (c.link peer).ready = c.isReadyWith peer := by
  rw [link, isReadyWith]
  cases c.links.get? peer <;> rfl

@[simp] theorem isReadyWith_lost : (c.lost peer).isReadyWith peer = false := by
  rw [lost, isReadyWith_insert, if_pos rfl]

@[simp] theorem isReadyWith_heard (now : Nat) : (c.heard now peer).isReadyWith peer' = c.isReadyWith peer' := by
  rw [heard, isReadyWith_insert, ready_link]
  split
  · rename_i same
    rw [same]
  · rfl

@[simp] theorem isReadyWith_synchronized : (c.synchronized peer).isReadyWith peer = true := by
  rw [synchronized, isReadyWith_insert, if_pos rfl]

@[simp] theorem isReadyWith_promoted : c.promoted.isReadyWith peer = false := by
  rw [promoted, isReadyWith]
  simp only [OrderedMap.get?_mapValues]
  cases c.links.get? peer <;> rfl

variable {peer peer'}

theorem isReadyWith_lost_of_ne (other : peer' ≠ peer) : (c.lost peer).isReadyWith peer' = c.isReadyWith peer' := by
  rw [lost, isReadyWith_insert, if_neg other]

theorem isReadyWith_synchronized_of_ne (other : peer' ≠ peer) :
    (c.synchronized peer).isReadyWith peer' = c.isReadyWith peer' := by
  rw [synchronized, isReadyWith_insert, if_neg other]

theorem wants_eq_true {role : Role} (wants : c.wants peer role = true) :
    role = .primary ∧ c.role = .standby ∧ c.isReadyWith peer = false := by
  cases role <;> cases mine : c.role <;> simp_all [Coordinator.wants, Role.isPrimary]

end Coordinator

namespace Peering

open Relation (ReflTransGen)

def begin (c : Coordinator) : Peering := ⟨c, none, .idle, []⟩

/-- The role that the outcome of a call tells. -/
def roleOf (outcome : Except Error Reply) : Except Error Role := outcome >>= Peer.readRole

def payloadOf (outcome : Except Error Reply) : Except Error Bytes := outcome >>= Peer.readSync

/-! ## Steps -/

/-- A step of the worker. -/
inductive Move (peer : String) (x : Peering) : Peering → Prop
  | look (idle : x.stage = .idle) :
      Move peer x { x with stage := .looked x.coordinator.node (x.coordinator.isReadyWith peer) }
  | ask (node : String) (ready : Bool) (looked : x.stage = .looked node ready) :
      Move peer x { x with stage := .asking, notes := x.notes ++ [.asked (Peer.roleRequest node ready)] }
  | answer (outcome : Except Error Reply) (asking : x.stage = .asking) :
      Move peer x { x with stage := .told (roleOf outcome), notes := x.notes ++ [.answered outcome] }
  | lose (e : Error) (told : x.stage = .told (.error e)) :
      Move peer x { x with stage := .idle, coordinator := x.coordinator.lost peer }
  | hear (role : Role) (now : Nat) (told : x.stage = .told (.ok role)) :
      Move peer x { x with stage := .heard role, coordinator := x.coordinator.heard now peer }
  | rest (role : Role) (heard : x.stage = .heard role) (content : x.coordinator.wants peer role = false) :
      Move peer x { x with stage := .idle }
  | want (role : Role) (heard : x.stage = .heard role) (wants : x.coordinator.wants peer role = true) :
      Move peer x { x with stage := .wanting }
  | turnAway (wanting : x.stage = .wanting) (free : x.holder = none) (primary : x.coordinator.role = .primary) :
      Move peer x { x with stage := .idle }
  | enter (wanting : x.stage = .wanting) (free : x.holder = none) (standby : x.coordinator.role = .standby) :
      Move peer x { x with stage := .admitted x.coordinator.node, holder := some .worker }
  | withdraw (node : String) (admitted : x.stage = .admitted node) :
      Move peer x { x with stage := .idle, holder := none }
  | send (node : String) (after : Position) (admitted : x.stage = .admitted node) :
      Move peer x { x with stage := .sent, notes := x.notes ++ [.asked (Peer.syncRequest node after)] }
  | receive (outcome : Except Error Reply) (sent : x.stage = .sent) :
      Move peer x { x with stage := .received (payloadOf outcome), notes := x.notes ++ [.answered outcome] }
  | abandon (e : Error) (received : x.stage = .received (.error e)) :
      Move peer x { x with stage := .idle, holder := none }
  | install (payload : Bytes) (outcome : Except Error Unit) (received : x.stage = .received (.ok payload)) :
      Move peer x
        { x with stage := .installed payload outcome, notes := x.notes ++ [.installed payload outcome] }
  | fail (payload : Bytes) (e : Error) (installed : x.stage = .installed payload (.error e)) :
      Move peer x { x with stage := .idle, holder := none }
  | synchronize (payload : Bytes) (installed : x.stage = .installed payload (.ok ())) :
      Move peer x
        { x with stage := .idle, holder := none, coordinator := x.coordinator.synchronized peer }

/-- A step of anyone else. -/
inductive Other (peer : String) (x : Peering) : Peering → Prop
  /-- Whatever is about other peers only. -/
  | elsewhere (c : Coordinator) (role : c.role = x.coordinator.role)
      (link : c.isReadyWith peer = x.coordinator.isReadyWith peer) : Other peer x { x with coordinator := c }
  | take (free : x.holder = none) : Other peer x { x with holder := some .other }
  | promote (taken : x.holder = some .other) : Other peer x { x with coordinator := x.coordinator.promoted }
  | release (taken : x.holder = some .other) : Other peer x { x with holder := none }

inductive Step (peer : String) (x : Peering) : Peering → Prop where
  | move {y : Peering} (move : Move peer x y) : Step peer x y
  | other {y : Peering} (other : Other peer x y) : Step peer x y

/-- What can come of a coordinator that starts as a standby without links. -/
inductive Reached (peer : String) (c : Coordinator) : Peering → Prop where
  | begin (standby : c.role = .standby) (unlinked : c.isReadyWith peer = false) : Reached peer c (begin c)
  | step {x y : Peering} (reached : Reached peer c x) (step : Step peer x y) : Reached peer c y

variable {peer : String} {c : Coordinator} {x y z : Peering}

theorem roleOf_eq_ok {outcome : Except Error Reply} {role : Role} :
    roleOf outcome = .ok role ↔ outcome = .ok (.integer role.code) := by
  cases outcome with
  | error e => simp [roleOf, bind, Except.bind]
  | ok reply => simp [roleOf, bind, Except.bind, Peer.readRole_eq_ok]

theorem payloadOf_eq_ok {outcome : Except Error Reply} {payload : Bytes} :
    payloadOf outcome = .ok payload ↔ outcome = .ok (.bulk payload) := by
  cases outcome with
  | error e => simp [payloadOf, bind, Except.bind]
  | ok reply => simp [payloadOf, bind, Except.bind, Peer.readSync_eq_ok]

/-! ## What others leave -/

/-- What becomes of a node and the worker of a peer while the worker waits. -/
structure Spared (peer : String) (x y : Peering) : Prop where
  stage : y.stage = x.stage
  notes : y.notes = x.notes
  ready : y.coordinator.isReadyWith peer = true → x.coordinator.isReadyWith peer = true
  worker : y.holder = some .worker ↔ x.holder = some .worker
  held : x.holder = some .worker → y.coordinator.role = x.coordinator.role
  stays : x.coordinator.role = .primary → y.coordinator.role = .primary
  promoted : y.coordinator.role = .primary →
    x.coordinator.role = .primary ∨ y.coordinator.isReadyWith peer = false

theorem Other.spared (other : Other peer x y) : Spared peer x y := by
  cases other with
  | elsewhere c role link =>
    exact ⟨rfl, rfl, fun ready => link ▸ ready, .rfl, fun _ => role, role.trans,
      fun primary => .inl (role.symm.trans primary)⟩
  | take free =>
    exact ⟨rfl, rfl, id, by simp [free], fun _ => rfl, id, .inl⟩
  | promote taken =>
    have unready : x.coordinator.promoted.isReadyWith peer = false := Coordinator.isReadyWith_promoted ..
    refine ⟨rfl, rfl, fun ready => ?_, .rfl, fun held => ?_, fun _ => rfl, fun _ => .inr unready⟩
    · exact absurd ready (by simp [unready])
    · simp [taken] at held
  | release taken =>
    exact ⟨rfl, rfl, id, by simp [taken], fun _ => rfl, id, .inl⟩

theorem Spared.refl (x : Peering) : Spared peer x x := ⟨rfl, rfl, id, .rfl, fun _ => rfl, id, .inl⟩

theorem Spared.trans (first : Spared peer x y) (second : Spared peer y z) : Spared peer x z where
  stage := second.stage.trans first.stage
  notes := second.notes.trans first.notes
  ready ready := first.ready (second.ready ready)
  worker := second.worker.trans first.worker
  held held := (second.held (first.worker.2 held)).trans (first.held held)
  stays primary := second.stays (first.stays primary)
  promoted primary := by
    rcases second.promoted primary with before | unready
    · refine (first.promoted before).imp_right fun unready => ?_
      by_contra ready
      simp [second.ready (by simpa using ready)] at unready
    · exact .inr unready

/-- What others leave, however much they do. -/
theorem spared_of_others (others : ReflTransGen (Other peer) x y) : Spared peer x y := by
  induction others with
  | refl => exact .refl x
  | tail _ other ih => exact ih.trans other.spared

theorem steps_of_others (others : ReflTransGen (Other peer) x y) : ReflTransGen (Step peer) x y :=
  ReflTransGen.mono (fun _ _ other => Step.other other) x y others

/-! ## The invariant -/

/-- The peer has told its role. -/
def Heard (role : Role) (notes : List Note) : Prop := ∃ before node ready,
  notes = before ++ [.asked (Peer.roleRequest node ready), .answered (.ok (.integer role.code))]

/-- What has passed in the tick that has come this far. -/
def Follows (notes : List Note) : Stage → Prop
  | .idle | .looked _ _ => True
  | .asking => ∃ before node ready, notes = before ++ [.asked (Peer.roleRequest node ready)]
  | .told answer => ∃ before node ready outcome,
    notes = before ++ [.asked (Peer.roleRequest node ready), .answered outcome] ∧ roleOf outcome = answer
  | .heard role => Heard role notes
  | .wanting | .admitted _ => Heard .primary notes
  | .sent => ∃ earlier node after, notes = earlier ++ [.asked (Peer.syncRequest node after)] ∧ Heard .primary earlier
  | .received answer => ∃ earlier node after outcome,
    notes = earlier ++ [.asked (Peer.syncRequest node after), .answered outcome] ∧ Heard .primary earlier ∧
      payloadOf outcome = answer
  | .installed payload outcome => ∃ earlier node after,
    notes = earlier ++ [.asked (Peer.syncRequest node after), .answered (.ok (.bulk payload)),
      .installed payload outcome] ∧ Heard .primary earlier

/-- The invariant: a worker registers only a node that is not up to date with its peer, and while
    it has the lock the node is a standby; a primary is up to date with nobody. -/
structure Sound (peer : String) (x : Peering) : Prop where
  unready : x.stage.Registering → x.coordinator.isReadyWith peer = false
  locked : x.stage.Locked → x.holder = some .worker
  standby : x.holder = some .worker → x.coordinator.role = .standby
  primary : x.coordinator.role = .primary → x.coordinator.isReadyWith peer = false
  follows : Follows x.notes x.stage

theorem sound_begin (standby : c.role = .standby) (unlinked : c.isReadyWith peer = false) : Sound peer (begin c) where
  unready _ := unlinked
  locked locked := by cases locked
  standby _ := standby
  primary _ := unlinked
  follows := trivial

theorem Spared.unready (spared : Spared peer x y) (unready : x.coordinator.isReadyWith peer = false) :
    y.coordinator.isReadyWith peer = false := by
  by_contra ready
  simp [spared.ready (by simpa using ready)] at unready

theorem Sound.spared (sound : Sound peer x) (spared : Spared peer x y) : Sound peer y where
  unready registering := spared.unready (sound.unready (spared.stage ▸ registering))
  locked locked := spared.worker.2 (sound.locked (spared.stage ▸ locked))
  standby held := (spared.held (spared.worker.1 held)).trans (sound.standby (spared.worker.1 held))
  primary primary := by
    rcases spared.promoted primary with before | unready
    · exact spared.unready (sound.primary before)
    · exact unready
  follows := by
    rw [spared.stage, spared.notes]
    exact sound.follows

theorem Move.role (move : Move peer x y) : y.coordinator.role = x.coordinator.role := by
  cases move <;> rfl

/-- A worker makes the node lose its peer, or be up to date with it, or neither. -/
theorem Move.ready (move : Move peer x y) :
    y.coordinator.isReadyWith peer = x.coordinator.isReadyWith peer ∨
      y.coordinator.isReadyWith peer = false ∨
        (∃ payload, x.stage = .installed payload (.ok ())) ∧ y.stage = .idle ∧
          y.coordinator.isReadyWith peer = true := by
  cases move with
  | lose e told => exact .inr (.inl (Coordinator.isReadyWith_lost ..))
  | hear role now told => exact .inl (Coordinator.isReadyWith_heard ..)
  | synchronize payload installed =>
    exact .inr (.inr ⟨⟨payload, installed⟩, rfl, Coordinator.isReadyWith_synchronized ..⟩)
  | _ => exact .inl rfl

theorem Sound.move_unready (sound : Sound peer x) (move : Move peer x y) (registering : y.stage.Registering) :
    y.coordinator.isReadyWith peer = false := by
  cases move with
  | want role heard wants => exact (Coordinator.wants_eq_true _ wants).2.2
  | enter wanting => exact sound.unready (by rw [wanting]; trivial)
  | send node after admitted => exact sound.unready (by rw [admitted]; trivial)
  | receive outcome sent => exact sound.unready (by rw [sent]; trivial)
  | install payload outcome received => exact sound.unready (by rw [received]; trivial)
  | _ => cases registering

theorem Sound.move_locked (sound : Sound peer x) (move : Move peer x y) (locked : y.stage.Locked) :
    y.holder = some .worker := by
  cases move with
  | enter => rfl
  | send node after admitted => exact sound.locked (by rw [admitted]; trivial)
  | receive outcome sent => exact sound.locked (by rw [sent]; trivial)
  | install payload outcome received => exact sound.locked (by rw [received]; trivial)
  | _ => cases locked

theorem Sound.move_standby (sound : Sound peer x) (move : Move peer x y) (held : y.holder = some .worker) :
    y.coordinator.role = .standby := by
  rw [move.role]
  cases move with
  | enter wanting free standby => exact standby
  | withdraw | abandon | fail | synchronize => cases held
  | _ => exact sound.standby held

theorem Sound.move_primary (sound : Sound peer x) (move : Move peer x y) (primary : y.coordinator.role = .primary) :
    y.coordinator.isReadyWith peer = false := by
  rw [move.role] at primary
  rcases move.ready with same | unready | ⟨⟨payload, installed⟩, -, -⟩
  · exact same.trans (sound.primary primary)
  · exact unready
  · have standby := sound.standby (sound.locked (by rw [installed]; trivial))
    exact absurd primary (Service.not_primary standby)

theorem Sound.move_follows (sound : Sound peer x) (move : Move peer x y) : Follows y.notes y.stage := by
  have follows := sound.follows
  cases move with
  | ask node ready looked => exact ⟨_, _, _, rfl⟩
  | answer outcome asking =>
    rw [asking] at follows
    obtain ⟨before, node, ready, notes⟩ := follows
    exact ⟨before, node, ready, outcome, by simp [notes], rfl⟩
  | hear role now told =>
    rw [told] at follows
    obtain ⟨before, node, ready, outcome, notes, tells⟩ := follows
    obtain rfl := roleOf_eq_ok.1 tells
    exact ⟨before, node, ready, notes⟩
  | want role heard wants =>
    rw [heard] at follows
    obtain rfl := (Coordinator.wants_eq_true _ wants).1
    exact follows
  | enter wanting =>
    rw [wanting] at follows
    exact follows
  | send node after admitted =>
    rw [admitted] at follows
    exact ⟨x.notes, node, after, rfl, follows⟩
  | receive outcome sent =>
    rw [sent] at follows
    obtain ⟨earlier, node, after, notes, heard⟩ := follows
    exact ⟨earlier, node, after, outcome, by simp [notes], heard, rfl⟩
  | install payload outcome received =>
    rw [received] at follows
    obtain ⟨earlier, node, after, answer, notes, heard, pays⟩ := follows
    obtain rfl := payloadOf_eq_ok.1 pays
    exact ⟨earlier, node, after, by simp [notes], heard⟩
  | _ => trivial

theorem Sound.step (sound : Sound peer x) (step : Step peer x y) : Sound peer y := by
  cases step with
  | move move =>
    exact ⟨sound.move_unready move, sound.move_locked move, sound.move_standby move, sound.move_primary move,
      sound.move_follows move⟩
  | other other => exact sound.spared other.spared

theorem Sound.steps (sound : Sound peer x) (steps : ReflTransGen (Step peer) x y) : Sound peer y := by
  induction steps with
  | refl => exact sound
  | tail _ step ih => exact ih.step step

theorem Reached.sound (reached : Reached peer c x) : Sound peer x := by
  induction reached with
  | begin standby unlinked => exact sound_begin standby unlinked
  | step _ step ih => exact ih.step step

/-! ## What the steps come to -/

/-- The peer has told that it is primary, has answered a registration with a payload, and the
    node's data has taken over this payload, all in the last tick. -/
def BroughtUp (notes : List Note) : Prop := ∃ before node ready node' after payload,
  notes = before ++ [.asked (Peer.roleRequest node ready), .answered (.ok (.integer Role.primary.code)),
    .asked (Peer.syncRequest node' after), .answered (.ok (.bulk payload)), .installed payload (.ok ())]

theorem Sound.turns (sound : Sound peer x) (step : Step peer x y) (before : x.coordinator.isReadyWith peer = false)
    (after : y.coordinator.isReadyWith peer = true) :
    BroughtUp x.notes ∧ (∃ payload, x.stage = .installed payload (.ok ())) ∧ y.coordinator.role = .standby := by
  cases step with
  | other other => simp [other.spared.ready after] at before
  | move move =>
    rcases move.ready with same | unready | ⟨⟨payload, installed⟩, -, -⟩
    · simp [same, before] at after
    · simp [unready] at after
    · have locked : x.stage.Locked := by rw [installed]; trivial
      have follows := sound.follows
      rw [installed] at follows
      obtain ⟨earlier, node', position, notes, start, node, ready, heard⟩ := follows
      refine ⟨⟨start, node, ready, node', position, payload, ?_⟩, ⟨payload, installed⟩, ?_⟩
      · simp [notes, heard]
      · exact move.role.trans (sound.standby (sound.locked locked))

/-- A step that adds a note, and what it adds. -/
theorem Step.notes (step : Step peer x y) : y.notes = x.notes ∨ ∃ note, y.notes = x.notes ++ [note] ∧
    (note.Registers → ∃ node, x.stage = .admitted node) ∧
    ((∃ payload outcome, note = .installed payload outcome) → x.stage.Locked) := by
  cases step with
  | other other => exact .inl other.spared.notes
  | move move =>
    cases move with
    | ask node ready looked =>
      refine .inr ⟨_, rfl, ?_, by simp⟩
      rintro ⟨node', after, same⟩
      exact (Peer.roleRequest_ne_syncRequest _ _ _ _ (Note.asked.inj same)).elim
    | answer outcome asking => exact .inr ⟨_, rfl, by rintro ⟨_, _, ⟨⟩⟩, by simp⟩
    | send node after admitted => exact .inr ⟨_, rfl, fun _ => ⟨node, admitted⟩, by simp⟩
    | receive outcome sent => exact .inr ⟨_, rfl, by rintro ⟨_, _, ⟨⟩⟩, by simp⟩
    | install payload outcome received =>
      exact .inr ⟨_, rfl, by rintro ⟨_, _, ⟨⟩⟩, fun _ => by rw [received]; trivial⟩
    | _ => exact .inl rfl

/-- A registration is asked for by a standby only, and of a peer with which it is not up to date. -/
theorem Sound.quiet (sound : Sound peer x) (step : Step peer x y) {note : Note} (notes : y.notes = x.notes ++ [note])
    (registers : note.Registers) : x.coordinator.isReadyWith peer = false ∧
      y.coordinator.isReadyWith peer = false ∧ x.coordinator.role = .standby := by
  rcases step.notes with same | ⟨note', added, asks, -⟩
  · simp [same] at notes
  · obtain rfl : note = note' := by simpa [notes] using added
    obtain ⟨node, admitted⟩ := asks registers
    have unready := sound.unready (by rw [admitted]; trivial)
    refine ⟨unready, ?_, sound.standby (sound.locked (by rw [admitted]; trivial))⟩
    by_contra ready
    obtain ⟨-, ⟨payload, installed⟩, -⟩ := sound.turns step unready (by simpa using ready)
    simp [admitted] at installed

theorem Sound.locked_standby (sound : Sound peer x) (locked : x.stage.Locked) : x.coordinator.role = .standby :=
  sound.standby (sound.locked locked)

/-- While a worker is to register, the node is not up to date with the peer, and only a payload
    that has been taken over changes this. -/
theorem Sound.registering (sound : Sound peer x) (registering : x.stage.Registering) :
    x.coordinator.isReadyWith peer = false ∧ ∀ y, Step peer x y → y.coordinator.isReadyWith peer = false ∨
      ∃ payload, x.stage = .installed payload (.ok ()) := by
  have unready := sound.unready registering
  refine ⟨unready, fun y step => ?_⟩
  by_cases ready : y.coordinator.isReadyWith peer = true
  · exact .inr (sound.turns step unready ready).2.1
  · exact .inl (by simpa using ready)

/-- Once a peer has not told its role, the next that its worker does is to give it up. -/
theorem loses {e : Error} (told : x.stage = .told (.error e)) (others : ReflTransGen (Other peer) x y)
    (move : Move peer y z) : z.stage = .idle ∧ z.coordinator.isReadyWith peer = false := by
  have stage : y.stage = .told (.error e) := (spared_of_others others).stage.trans told
  cases move with
  | lose => exact ⟨rfl, Coordinator.isReadyWith_lost ..⟩
  | _ => simp_all

/-- What a worker that has asked for the role is answered: a role, or anything else. -/
theorem hears (asking : x.stage = .asking) (move : Move peer x y) : ∃ outcome,
    y.notes = x.notes ++ [.answered outcome] ∧
    ((∃ role, outcome = .ok (.integer role.code) ∧ y.stage = .told (.ok role)) ∨
      (∀ role : Role, outcome ≠ .ok (.integer role.code)) ∧ ∃ e, y.stage = .told (.error e)) := by
  cases move with
  | answer outcome =>
    refine ⟨outcome, rfl, ?_⟩
    cases tells : roleOf outcome with
    | ok role => exact .inl ⟨role, roleOf_eq_ok.1 tells, rfl⟩
    | error e =>
      refine .inr ⟨fun role same => ?_, e, rfl⟩
      simp [roleOf_eq_ok.2 same] at tells
  | _ => simp_all

theorem Step.stays (step : Step peer x y) (primary : x.coordinator.role = .primary) :
    y.coordinator.role = .primary := by
  cases step with
  | move move => exact move.role.trans primary
  | other other => exact other.spared.stays primary

theorem Reached.steps (reached : Reached peer c x) (steps : ReflTransGen (Step peer) x y) : Reached peer c y := by
  induction steps with
  | refl => exact reached
  | tail _ step ih => exact .step ih step

/-- However long a primary goes on, it stays one, is up to date with nobody and asks for no
    registration. -/
theorem Reached.silent (reached : Reached peer c x) (primary : x.coordinator.role = .primary)
    (steps : ReflTransGen (Step peer) x y) :
    y.coordinator.role = .primary ∧ y.coordinator.isReadyWith peer = false ∧
      ∃ later, y.notes = x.notes ++ later ∧ ∀ note ∈ later, ¬ note.Registers := by
  induction steps with
  | refl => exact ⟨primary, reached.sound.primary primary, [], by simp, by simp⟩
  | tail steps step ih =>
    obtain ⟨before, -, later, notes, silent⟩ := ih
    have sound := (reached.steps steps).sound
    have after := step.stays before
    refine ⟨after, (sound.step step).primary after, ?_⟩
    rcases step.notes with same | ⟨note, added, -, -⟩
    · exact ⟨later, same.trans notes, silent⟩
    · refine ⟨later ++ [note], by rw [added, notes, List.append_assoc], fun n member registers => ?_⟩
      rcases List.mem_append.1 member with old | new
      · exact silent n old registers
      · obtain rfl := List.mem_singleton.1 new
        exact absurd before (Service.not_primary (sound.quiet step added registers).2.2)

end Peering
end Shiplog
