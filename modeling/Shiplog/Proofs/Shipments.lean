import Shiplog.Proofs.Nodes
import Shiplog.Proofs.Refusals
import Shiplog.Proofs.Registrations
import Shiplog.Proofs.Writers

/-!
What a primary writes and what its standbys receive. Calls are answered one at a time: the
engine makes its change part by part, the record is shipped, the call is answered; all the
while standbys register, fall silent, fail and catch up (`Feed.Step`). The calls that a node
is given by itself are such a run (`Feed.writes_runs`). The records in the log are those of
the calls that were not refused, and what is shipped follows the log (`Feed.Sound`); so a
registration receives the log from the position on where it was made (`Feed.Reached.feeds`).
-/
namespace Shiplog

/-- A call that changes a key, and its answer. -/
structure Answered where
  entry : Entry
  answer : Except Error Position

/-- A primary that is written to, with an account of the calls that it has answered. -/
structure Feed where
  traffic : Traffic
  writer : Writer
  answered : List Answered

namespace Feed

open Engine (Stands effects later)
open Relation (ReflTransGen)
open Traffic (pendingFor)
open Pair (shipment)

/-- What is answered when a record is written: its position, or that shipping it failed. -/
def Acknowledges (record : LoggedEntry) (answer : Except Error Position) : Prop :=
  answer = .ok record.position ∨ ∃ failures, answer = .error (.shipFailed failures)

/-- The records of calls: one for each client key, none for a bookkeeping key. -/
inductive Recorded : List Answered → List LoggedEntry → Prop where
  | nil : Recorded [] []
  | write {record answer calls records} (client : Engine.isReserved record.entry.key = false)
      (acknowledged : Acknowledges record answer) (rest : Recorded calls records) :
      Recorded (⟨record.entry, answer⟩ :: calls) (record :: records)
  | refuse {entry calls records} (reserved : Engine.isReserved entry.key = true) (rest : Recorded calls records) :
      Recorded (⟨entry, .error .reservedKey⟩ :: calls) records

theorem Recorded.append {calls calls' : List Answered} {records records' : List LoggedEntry}
    (first : Recorded calls records) (second : Recorded calls' records') :
    Recorded (calls ++ calls') (records ++ records') := by
  induction first with
  | nil => exact second
  | write client acknowledged rest ih => exact .write client acknowledged ih
  | refuse reserved rest ih => exact .refuse reserved ih

/-! ## Steps -/

variable (o : Origin)

inductive Step (x : Feed) : Feed → Prop where
  /-- A part of a change. -/
  | change {writer} (part : x.writer.Onward o writer) : Step x { x with writer }
  | ship {record traffic} (next : x.writer.writing = .marked record) (step : Traffic.Lead x.traffic traffic)
      (shipped : traffic.shipped = x.traffic.shipped ++ [shipment record]) :
      Step x { x with traffic, writer := { x.writer with writing := .shipping } }
  | answer {record answer} (next : x.writer.writing = .shipping) (ended : ∀ log, x.traffic.job ≠ some (.ship log))
      (last : x.writer.written.getLast? = some record) (acknowledged : Acknowledges record answer) :
      Step x { x with
        writer := { x.writer with writing := .idle }
        answered := x.answered ++ [⟨record.entry, answer⟩] }
  /-- The engine refuses a bookkeeping key. -/
  | refuse {entry e engine} (idle : x.writer.writing = .idle) (reserved : Engine.isReserved entry.key = true)
      (done : (Engine.change entry).perform x.writer.engine = (.error e, engine)) :
      Step x { x with writer := { x.writer with engine }, answered := x.answered ++ [⟨entry, .error e⟩] }
  /-- The traffic apart from the shipping of what is written. -/
  | carry {traffic} (quiet : x.traffic.Quiet traffic) : Step x { x with traffic }

def begin (c : Coordinator) (engine : Mounted Engine) (given : List Position) (pages : Nat) : Feed :=
  ⟨.begin c, ⟨engine, .idle, [], given, pages⟩, []⟩

/-- What a primary can come to whose engine is up and which has no registrations at first. -/
inductive Reached : Feed → Prop where
  | begin {c engine given pages version replicated} (empty : c.standbys = .empty)
      (stands : Stands o.berth engine pages o.before given ⟨o.user, version, replicated⟩)
      (counted : ∀ r ∈ o.before, r.entry.Counted) (known : engine.item.tail ∈ given) :
      Reached (begin c engine given pages)
  | step {x y} (reached : Reached x) (step : Step o x y) : Reached y

variable {o} {x y z : Feed}

theorem Reached.steps (reached : Reached o x) (steps : ReflTransGen (Step o) x y) : Reached o y := by
  induction steps with
  | refl => exact reached
  | tail _ step ih => exact ih.step step

/-- A primary may start with any engine that is up, whatever its life. -/
theorem Reached.of_lived {c : Coordinator} {engine : Mounted Engine} {given : List Position} {pages : Nat}
    (empty : c.standbys = .empty) (lived : Engine.Lived o.berth engine pages o.before given)
    (up : engine.item.log.mounted = true) (clients : Engine.clients engine.disk engine.item = .ok o.user.entries)
    (small : pages < 2 ^ 64) : Reached o (.begin c engine (given ++ [engine.item.tail]) pages) := by
  obtain ⟨content, lasts⟩ := lived.lasts small
  have stands := lasts.stands up
  have same : content = ⟨o.user, content.version, content.replicated⟩ := by rw [← stands.user_eq clients]
  rw [same] at stands
  have counted : ∀ r ∈ o.before, r.entry.Counted := fun r member => (lasts.fits r member).counted
  exact .begin empty stands.withTail counted (List.mem_append_right _ (List.mem_singleton_self _))

theorem pages_le (step : Step o x y) : x.writer.pages ≤ y.writer.pages := by
  cases step with
  | change part =>
    obtain ⟨step, -⟩ := part
    cases step with
    | log idle fits done => exact Nat.le_add_right _ _
    | _ => exact Nat.le_refl _
  | _ => exact Nat.le_refl _

theorem pages_le_of_steps (steps : ReflTransGen (Step o) x y) : x.writer.pages ≤ y.writer.pages := by
  induction steps with
  | refl => exact Nat.le_refl _
  | tail _ step ih => exact Nat.le_trans ih (pages_le step)

/-! ## One step -/

/-- The records whose calls were answered. -/
def settled (x : Feed) : List LoggedEntry :=
  match x.writer.writing with
  | .idle => x.writer.written
  | _ => x.writer.written.dropLast

theorem settled_idle (idle : x.writer.writing = .idle) : x.settled = x.writer.written := by
  rw [settled, idle]

theorem settled_busy (busy : x.writer.writing ≠ .idle) : x.settled = x.writer.written.dropLast := by
  unfold settled
  split
  · rename_i idle
    exact absurd idle busy
  · rfl

/-- The invariant: what was shipped follows the log, at one record's distance while one is
    being written. -/
structure Sound (o : Origin) (x : Feed) : Prop where
  traffic : x.traffic.Sound
  counted : ∀ r ∈ o.before, r.entry.Counted
  held : ∃ version replicated, x.writer.Held o version replicated
  known : x.writer.engine.item.tail ∈ x.writer.given
  ships : x.writer.Ships x.traffic.shipped

/-- What a step, or a run, leaves of what is written, of the registrations and of the account. -/
structure Grows (x y : Feed) : Prop where
  writer : x.writer.Grows y.writer
  made : ∀ g, x.traffic.Made g → y.traffic.Made g
  since : ∀ g, x.traffic.Made g → y.traffic.since g = x.traffic.since g
  answered : ∃ calls records, y.answered = x.answered ++ calls ∧ y.settled = x.settled ++ records ∧ Recorded calls records

/-- No call is answered. -/
theorem grows_of_unanswered (writer : x.writer.Grows y.writer)
    (made : ∀ g, x.traffic.Made g → y.traffic.Made g)
    (since : ∀ g, x.traffic.Made g → y.traffic.since g = x.traffic.since g)
    (answered : y.answered = x.answered) (settled : y.settled = x.settled) : Grows x y :=
  ⟨writer, made, since, [], [], by simp [answered], by simp [settled], .nil⟩

theorem Grows.refl (x : Feed) : Grows x x :=
  grows_of_unanswered (Writer.grows_of_same rfl rfl rfl (Nat.le_refl _)) (fun _ => id) (fun _ _ => rfl) rfl rfl

theorem Grows.trans (first : Grows x y) (second : Grows y z) : Grows x z where
  writer := first.writer.trans second.writer
  made g made := second.made g (first.made g made)
  since g made := (second.since g (first.made g made)).trans (first.since g made)
  answered := by
    obtain ⟨calls, records, answered, settled, recorded⟩ := first.answered
    obtain ⟨calls', records', answered', settled', recorded'⟩ := second.answered
    refine ⟨calls ++ calls', records ++ records', ?_, ?_, recorded.append recorded'⟩
    · rw [answered', answered, List.append_assoc]
    · rw [settled', settled, List.append_assoc]

/-- The end of the log is the last position that it has given out. -/
theorem known_of_step {w w' : Writer} {version replicated : Option Position} (held : w.Held o version replicated)
    (step : w.Step o w') (small : w'.pages < 2 ^ 64) (known : w.engine.item.tail ∈ w.given) :
    w'.engine.item.tail ∈ w'.given := by
  cases step with
  | @log entry engine p idle fits done =>
    obtain ⟨m, wrote, -⟩ := held.stands.log entry small
    rw [wrote] at done
    cases done
    exact List.mem_append_right _ (List.mem_singleton_self _)
  | apply next done =>
    have log := Engine.log_of_onStore done
    rwa [Engine.tail, log]
  | mark next done =>
    have log := Engine.log_of_onStore done
    rwa [Engine.tail, log]
  | rest next => exact known

theorem Sound.change (sound : Sound o x) {writer : Writer} (part : x.writer.Onward o writer)
    (small : writer.pages < 2 ^ 64) : Sound o { x with writer } ∧ Grows x { x with writer } := by
  obtain ⟨version, replicated, held⟩ := sound.held
  obtain ⟨step, busy⟩ := part
  obtain ⟨⟨version', held'⟩, grows⟩ := held.step step small
  have shipped : writer.shipped = x.writer.shipped ∧ Feed.settled { x with writer } = x.settled := by
    rw [settled_busy busy]
    cases step with
    | log idle fits done => simp [Writer.shipped, idle, Writing.unshipped, settled_idle idle]
    | apply next done => simp [Writer.shipped, next, Writing.unshipped, settled_busy]
    | mark next done => simp [Writer.shipped, next, Writing.unshipped, settled_busy]
    | rest next => exact absurd rfl busy
  constructor
  · exact ⟨sound.traffic, sound.counted, ⟨_, _, held'⟩, known_of_step held step small sound.known,
      sound.ships.grows grows shipped.1⟩
  · exact grows_of_unanswered grows (fun _ => id) (fun _ _ => rfl) rfl shipped.2

theorem Sound.ship (sound : Sound o x) {record : LoggedEntry} {traffic : Traffic} (next : x.writer.writing = .marked record)
    (step : Traffic.Lead x.traffic traffic) (shipped : traffic.shipped = x.traffic.shipped ++ [shipment record])
    (same : y = { x with traffic, writer := { x.writer with writing := .shipping } }) : Sound o y ∧ Grows x y := by
  obtain ⟨version, replicated, held⟩ := sound.held
  have moves := sound.traffic.lead_moves step
  have last := held.last record (by rw [next]; rfl)
  obtain ⟨held', grows⟩ : y.writer.Held o version replicated ∧ x.writer.Grows y.writer := by
    rw [same]
    exact held.kept rfl rfl rfl rfl (by rw [next]; rfl) (by simp [Writing.record?])
  have busy : x.writer.writing ≠ .idle := by simp [next]
  have settled : y.settled = x.settled := by
    rw [settled_busy busy, same]
    rfl
  subst same
  refine ⟨⟨sound.traffic.lead step, sound.counted, ⟨_, _, held'⟩, sound.known, ?_⟩, ?_⟩
  · rw [shipped]
    exact sound.ships.ship next last
  · exact grows_of_unanswered grows moves.made moves.since rfl settled

theorem Sound.answer (sound : Sound o x) {record : LoggedEntry} {answer : Except Error Position}
    (next : x.writer.writing = .shipping) (last : x.writer.written.getLast? = some record)
    (acknowledged : Acknowledges record answer)
    (same : y = { x with
      writer := { x.writer with writing := .idle }
      answered := x.answered ++ [⟨record.entry, answer⟩] }) : Sound o y ∧ Grows x y := by
  obtain ⟨version, replicated, held⟩ := sound.held
  obtain ⟨held', grows⟩ : y.writer.Held o version replicated ∧ x.writer.Grows y.writer := by
    rw [same]
    exact held.kept rfl rfl rfl rfl (by rw [next]; rfl) (by simp [Writing.record?])
  have busy : x.writer.writing ≠ .idle := by simp [next]
  have settled : y.settled = x.settled ++ [record] := by
    rw [settled_busy busy, List.dropLast_append_getLast? record last, same]
    rfl
  have client := (held.fits record (List.mem_of_getLast? last)).client
  have shipped : y.writer.shipped = x.writer.shipped := by
    rw [Writer.shipped, Writer.shipped, next, same]
    rfl
  subst same
  constructor
  · exact ⟨sound.traffic, sound.counted, ⟨_, _, held'⟩, sound.known, sound.ships.grows grows shipped⟩
  · exact ⟨grows, fun _ => id, fun _ _ => rfl, [_], [record], rfl, settled, .write client acknowledged .nil⟩

theorem Sound.refuse (sound : Sound o x) {entry : Entry} {e : Error} {engine : Mounted Engine}
    (idle : x.writer.writing = .idle) (reserved : Engine.isReserved entry.key = true)
    (done : (Engine.change entry).perform x.writer.engine = (.error e, engine))
    (same : y = { x with writer := { x.writer with engine }, answered := x.answered ++ [⟨entry, .error e⟩] }) :
    Sound o y ∧ Grows x y := by
  rw [Engine.change_reserved x.writer.engine reserved] at done
  cases done
  subst same
  constructor
  · exact ⟨sound.traffic, sound.counted, sound.held, sound.known, sound.ships⟩
  · refine ⟨(Grows.refl x).writer, fun _ => id, fun _ _ => rfl, [_], [], rfl, ?_, .refuse reserved .nil⟩
    rw [List.append_nil, settled_idle idle]
    exact settled_idle idle

theorem Sound.carry (sound : Sound o x) {traffic : Traffic} (quiet : x.traffic.Quiet traffic) :
    Sound o { x with traffic } ∧ Grows x { x with traffic } := by
  obtain ⟨step, shipped⟩ := quiet
  have moves := sound.traffic.moves step
  constructor
  · refine ⟨sound.traffic.step step, sound.counted, sound.held, sound.known, ?_⟩
    rw [shipped]
    exact sound.ships
  · exact grows_of_unanswered (Grows.refl x).writer moves.made moves.since rfl rfl

theorem Sound.step (sound : Sound o x) (step : Step o x y) (small : y.writer.pages < 2 ^ 64) : Sound o y ∧ Grows x y := by
  cases step with
  | change part => exact sound.change part small
  | ship next step shipped => exact sound.ship next step shipped rfl
  | answer next ended last acknowledged => exact sound.answer next last acknowledged rfl
  | refuse idle reserved done => exact sound.refuse idle reserved done rfl
  | carry quiet => exact sound.carry quiet

/-! ## Every run -/

theorem Sound.runs (sound : Sound o x) (steps : ReflTransGen (Step o) x y) (small : y.writer.pages < 2 ^ 64) :
    Sound o y ∧ Grows x y := by
  induction steps with
  | refl => exact ⟨sound, .refl x⟩
  | tail _ step ih =>
    obtain ⟨before, grown⟩ := ih (Nat.lt_of_le_of_lt (pages_le step) small)
    obtain ⟨after, grows⟩ := before.step step small
    exact ⟨after, grown.trans grows⟩

theorem Reached.sound (reached : Reached o x) (small : x.writer.pages < 2 ^ 64) : Sound o x := by
  induction reached with
  | @begin c engine given pages version replicated empty stands counted known =>
    refine ⟨Traffic.sound_begin empty, counted, ⟨version, replicated, ?_⟩, known, rfl⟩
    rw [← List.append_nil o.before] at stands
    exact ⟨by simp [Feed.begin], by simp [Feed.begin], by simp [Feed.begin, Writing.record?], stands⟩
  | step reached step ih => exact ((ih (Nat.lt_of_le_of_lt (pages_le step) small)).step step small).1

/-! ## Calls of a node by itself -/

/-- The parts of a change, as steps. -/
theorem runs_of_onward {w : Writer} (parts : ReflTransGen (Writer.Onward o) x.writer w) :
    ReflTransGen (Step o) x { x with writer := w } :=
  parts.lift (fun writer => { x with writer }) fun _ _ part => .change part

/-- The traffic that ships nothing, as steps. -/
theorem runs_of_quiet {traffic : Traffic} (quiet : ReflTransGen Traffic.Quiet x.traffic traffic) :
    ReflTransGen (Step o) x { x with traffic } :=
  quiet.lift (fun traffic => { x with traffic }) fun _ _ step => .carry step

/-- A primary as a node has it, between its calls. -/
structure Serving {ω : Type} (x : Feed) (node : Node ω) : Prop where
  coordinator : x.traffic.coordinator = node.coordinator
  engine : x.writer.engine = node.engine
  primary : node.coordinator.role = .primary
  idle : x.writer.writing = .idle
  free : x.traffic.job = none

variable {ω : Type} {w : World ω} {node : Node ω}

/-- A run of a call, with its answer. -/
def Runs (o : Origin) (w : World ω) (x : Feed) (node : Node ω) (entry : Entry) : Prop :=
  ∃ y, ReflTransGen (Step o) x y ∧ Serving y ((Node.write w entry).perform node).2 ∧
    y.answered = x.answered ++ [⟨entry, ((Node.write w entry).perform node).1⟩] ∧
    y.writer.pages ≤ x.writer.pages + entry.pages

/-- A call with a bookkeeping key. -/
theorem refuse_runs (serving : Serving x node) {entry : Entry} (reserved : Engine.isReserved entry.key = true) :
    Runs o w x node entry := by
  have refused := Engine.change_reserved node.engine reserved
  rw [Runs, Node.write_refused serving.primary refused]
  rw [← serving.engine] at refused
  have step := ReflTransGen.single (Step.refuse (o := o) serving.idle reserved refused)
  exact ⟨_, step, ⟨serving.coordinator, serving.engine, serving.primary, serving.idle, serving.free⟩, rfl,
    Nat.le_add_right _ _⟩

/-- A call with a client key. -/
theorem change_runs (clock : ∀ world, ∃ time, (w.now.perform world).1 = .ok time) (serving : Serving x node)
    {entry : Entry} (fits : entry.Fits o.berth.backend) {p : Position} {m : Mounted Engine}
    (changed : (Engine.change entry).perform node.engine = (.ok p, m)) : Runs o w x node entry := by
  have stays : ((Node.write w entry).perform node).2.coordinator.role = .primary :=
    (Node.sameRole_write entry node).trans serving.primary
  rw [Node.write_changed serving.primary changed] at stays
  rw [Runs, Node.write_changed serving.primary changed]
  rw [← serving.engine] at changed
  obtain ⟨writer, parts, engine, marked, written, pages⟩ := Writer.mark_runs serving.idle fits changed
  have wrote : ReflTransGen (Step o) x { x with writer } := runs_of_onward parts
  obtain ⟨t, t', handed, collected, shipped, quiet, free, coordinator, -, answer⟩ := Traffic.collect_runs
    (Node.busy_surroundings clock) (shipment ⟨p, entry⟩) (node.withEngine m) serving.coordinator serving.free
    (by simp [Node.withEngine, serving.primary, Role.isPrimary])
  have ships := wrote.tail (.ship marked collected shipped)
  have delivered := ships.trans (runs_of_quiet quiet)
  have last : writer.written.getLast? = some ⟨p, entry⟩ := by rw [written, List.getLast?_concat]
  have ended : ∀ log, t'.job ≠ some (.ship log) := by simp [free]
  have acknowledged : Acknowledges ⟨p, entry⟩
      (((Primary.ship (Node.surroundings w) (shipment ⟨p, entry⟩)).perform (node.withEngine m)).1.map fun _ => p) := by
    rcases answer with ⟨count, made⟩ | ⟨failures, failed⟩
    · rw [made]
      exact .inl rfl
    · rw [failed]
      exact .inr ⟨failures, rfl⟩
  have kept : Node.engine ((Primary.ship (Node.surroundings w) (shipment ⟨p, entry⟩)).perform (node.withEngine m)).2 = m :=
    Node.sameEngine_ship _ (node.withEngine m)
  exact ⟨_, delivered.tail (.answer rfl ended last acknowledged),
    ⟨coordinator, engine.trans kept.symm, stays, rfl, free⟩, rfl, Nat.le_of_eq pages⟩

/-- A call of a primary is answered, and is a run of steps. -/
theorem write_runs (clock : ∀ world, ∃ time, (w.now.perform world).1 = .ok time) (reached : Reached o x)
    (serving : Serving x node) {entry : Entry} (key : Engine.isReserved entry.key = true ∨ entry.Fits o.berth.backend)
    (small : x.writer.pages + entry.pages < 2 ^ 64) : Runs o w x node entry := by
  rcases key with reserved | fits
  · exact refuse_runs serving reserved
  · have now : x.writer.pages < 2 ^ 64 := Nat.lt_of_le_of_lt (Nat.le_add_right _ _) small
    obtain ⟨version, replicated, held⟩ := (reached.sound now).held
    obtain ⟨m, changed, -⟩ := held.stands.change fits small
    rw [serving.engine] at changed
    exact change_runs clock serving fits changed

/-- A node after calls that it is given one after the other, with their answers. -/
def writes (w : World ω) : List Entry → Node ω → List Answered × Node ω
  | [], node => ([], node)
  | entry :: rest, node =>
    let (answer, node) := (Node.write w entry).perform node
    let (answered, node) := writes w rest node
    (⟨entry, answer⟩ :: answered, node)

/-- Calls that a primary is given one after the other are a run of steps. -/
theorem writes_runs (clock : ∀ world, ∃ time, (w.now.perform world).1 = .ok time) {entries : List Entry}
    (reached : Reached o x) (serving : Serving x node)
    (keys : ∀ entry ∈ entries, Engine.isReserved entry.key = true ∨ entry.Fits o.berth.backend)
    (small : x.writer.pages + (entries.map Entry.pages).sum < 2 ^ 64) :
    ∃ y, ReflTransGen (Step o) x y ∧ Serving y (writes w entries node).2 ∧
      y.answered = x.answered ++ (writes w entries node).1 := by
  induction entries generalizing x node with
  | nil => exact ⟨x, .refl, serving, (List.append_nil _).symm⟩
  | cons entry rest ih =>
    rw [List.map_cons, List.sum_cons] at small
    obtain ⟨y, steps, serving', answered, pages⟩ :=
      write_runs clock reached serving (keys entry List.mem_cons_self) (by omega)
    have keys' : ∀ e ∈ rest, Engine.isReserved e.key = true ∨ e.Fits o.berth.backend := by
      intro e member
      exact keys e (List.mem_cons_of_mem entry member)
    obtain ⟨z, further, serving'', answered'⟩ := ih (reached.steps steps) serving' keys' (by omega)
    refine ⟨z, steps.trans further, serving'', ?_⟩
    rw [answered', answered, List.append_assoc]
    rfl

/-! ## What a registration receives -/

/-- A new registration of a node. -/
def enlist (now : Nat) (node : String) (generation : UInt64) (x : Feed) : Feed :=
  { x with traffic := x.traffic.enlist now node generation }

/-- What has become of the calls since a registration was made, and what its node has received
    under it, all calls being answered. -/
structure Fed (start x : Feed) (node : String) (r : Registration) (calls : List Answered) (records : List LoggedEntry) :
    Prop where
  answered : x.answered = start.answered ++ calls
  recorded : Recorded calls records
  logged : Engine.logsAfter start.writer.engine.item.tail x.writer.engine.disk x.writer.engine.item = .ok records
  /-- What was delivered, what is on its way and what waits spell the records, in their order. -/
  fed : (x.traffic.arrived node r.generation ++ pendingFor node r.generation x.traffic.underway ++ r.backlog).map
    LoggedEntry.layout.parse = records.map .ok
  /-- When no ship and no flush is in progress nothing is on its way. -/
  atRest : x.traffic.job = none →
    (x.traffic.arrived node r.generation ++ r.backlog).map LoggedEntry.layout.parse = records.map .ok
  quiet : r.status = .pending → x.traffic.arrived node r.generation = []
  /-- The client's entries have all records applied to them. -/
  applied : ∃ user, Engine.clients start.writer.engine.disk start.writer.engine.item = .ok user.entries ∧
    Engine.clients x.writer.engine.disk x.writer.engine.item = .ok (effects records user).entries

theorem Sound.clients (sound : Sound o x) (idle : x.writer.writing = .idle) :
    Engine.clients x.writer.engine.disk x.writer.engine.item = .ok (effects x.writer.written o.user).entries := by
  obtain ⟨version, replicated, held⟩ := sound.held
  have all : x.writer.applied = x.writer.written.length := by
    rw [Writer.applied, idle]
    rfl
  have stands := held.stands
  rw [all, List.take_length] at stands
  exact stands.clients

/-- When nothing is being written all that is in the log is shipped. -/
theorem Sound.shipped (sound : Sound o x) (idle : x.writer.writing = .idle) :
    x.traffic.shipped = x.writer.written.map shipment := by
  have all : x.writer.shipped = x.writer.written.length := by
    rw [Writer.shipped, idle]
    rfl
  have ships := sound.ships
  rwa [Writer.Ships, all, List.take_length] at ships

theorem Sound.counted_written (sound : Sound o x) : ∀ r ∈ o.before ++ x.writer.written, r.entry.Counted := by
  obtain ⟨version, replicated, held⟩ := sound.held
  intro r member
  rcases List.mem_append.mp member with old | new
  · exact sound.counted r old
  · exact (held.fits r new).counted

/-- What was written since is what the log holds after its end of then. -/
theorem Sound.logsAfter (before : Sound o x) (after : Sound o y) (grows : Grows x y) {records : List LoggedEntry}
    (written : y.writer.written = x.writer.written ++ records) (new : ∀ r ∈ records, x.writer.engine.item.tail < r.position) :
    Engine.logsAfter x.writer.engine.item.tail y.writer.engine.disk y.writer.engine.item = .ok records := by
  obtain ⟨version, replicated, held⟩ := before.held
  obtain ⟨version', replicated', held'⟩ := after.held
  have known := grows.writer.given before.known
  have old : ∀ r ∈ o.before ++ x.writer.written, r.position ≤ x.writer.engine.item.tail := by
    intro r member
    exact (held.stands.sorted.2 r member).2
  rw [held'.stands.logsAfter after.counted_written (.inr known) grows.writer.tail, written, ← List.append_assoc,
    Engine.later_append_of_le old, Engine.later_eq_self new]

/-- What was delivered under a registration, what is on its way and what waits is what was
    written since it was made. -/
theorem Sound.received (sound : Sound o x) (idle : x.writer.writing = .idle) {node : String} {r : Registration}
    (registered : x.traffic.coordinator.standbys.get? node = some r) :
    x.traffic.arrived node r.generation ++ pendingFor node r.generation x.traffic.underway ++ r.backlog =
      (x.writer.written.drop (x.traffic.since r.generation)).map shipment := by
  rw [sound.traffic.balance node r registered, sound.shipped idle, List.map_drop]

/-- A registration that is made when nothing is being written is made behind all that is written. -/
theorem Sound.since_enlist (sound : Sound o x) (idle : x.writer.writing = .idle) (now : Nat) (node : String)
    (generation : UInt64) : (x.enlist now node generation).traffic.since generation = x.writer.written.length := by
  have made : (x.enlist now node generation).traffic.since generation = x.traffic.shipped.length := by
    rw [enlist, Traffic.since_enlist, if_pos rfl]
  rwa [sound.shipped idle, List.length_map] at made

theorem map_parse {records : List LoggedEntry} (counted : ∀ r ∈ records, r.entry.Counted) :
    (records.map shipment).map LoggedEntry.layout.parse = records.map .ok := by
  rw [List.map_map]
  apply List.map_congr_left
  intro r member
  rw [Function.comp_apply, shipment, (LoggedEntry.spells (counted r member)).parse]

/-- A registration that was made when nothing was being written receives what the log holds
    after its end of then: one record for each call since that was not refused, whether or not
    it could be shipped to all. -/
theorem Reached.feeds (reached : Reached o x) (idle : x.writer.writing = .idle) {now : Nat} {node : String}
    {g : UInt64} (claimed : x.traffic.claimed g = some node) (steps : ReflTransGen (Step o) (x.enlist now node g) y)
    (small : y.writer.pages < 2 ^ 64) (answered : y.writer.writing = .idle) {r : Registration}
    (registered : y.traffic.coordinator.standbys.get? node = some r)
    (same : r.generation = g) : ∃ calls records, Fed x y node r calls records := by
  have enlists : x.traffic.Quiet (x.traffic.enlist now node g) := ⟨.aside (.enlist now node g claimed), rfl⟩
  have start : (x.enlist now node g).writer.pages < 2 ^ 64 := Nat.lt_of_le_of_lt (pages_le_of_steps steps) small
  have before := reached.sound start
  obtain ⟨enlisted, first⟩ := before.carry enlists
  obtain ⟨after, further⟩ := enlisted.runs steps small
  have grows := first.trans further
  obtain ⟨calls, records, accounted, settled, recorded⟩ := grows.answered
  obtain ⟨new, written, later⟩ := grows.writer.written
  obtain rfl : records = new := by
    rw [settled_idle idle, settled_idle answered, written] at settled
    exact (List.append_cancel_left settled).symm
  have since : y.traffic.since r.generation = x.writer.written.length := by
    rw [same, further.since g (before.traffic.made_of_claimed now claimed)]
    exact before.since_enlist idle now node g
  have received := after.received answered registered
  rw [since, written, List.drop_left] at received
  have counted : ∀ r ∈ records, r.entry.Counted := by
    intro r member
    refine after.counted_written r (List.mem_append_right _ ?_)
    rw [written]
    exact List.mem_append_right _ member
  refine ⟨calls, records, accounted, recorded, before.logsAfter after grows written later, ?_, ?_, ?_, ?_⟩
  · rw [received]
    exact map_parse counted
  · intro free
    rw [after.traffic.free free, Traffic.pendingFor_nil, List.append_nil] at received
    rw [received]
    exact map_parse counted
  · intro waits
    exact (after.traffic.pending node r registered waits).1
  · refine ⟨_, before.clients idle, ?_⟩
    rw [after.clients answered, written, Engine.effects_append]

/-- Two calls after a registration: one is made while it is pending, and another standby fails;
    the other has a bookkeeping key. -/
theorem Reached.feeds_after_failure : ∃ o x now node g y r, Reached o x ∧ x.writer.writing = .idle ∧
    x.traffic.claimed g = some node ∧ ReflTransGen (Step o) (x.enlist now node g) y ∧
    y.writer.pages < 2 ^ 64 ∧ y.writer.writing = .idle ∧ y.traffic.job = none ∧
    y.traffic.coordinator.standbys.get? node = some r ∧ r.generation = g ∧
    (y.traffic.arrived node r.generation).length = 1 ∧ y.answered.length = 2 ∧
    ∃ calls records, Fed x y node r calls records := by
  let berth : Berth := ⟨[""], [], .memory, trivial⟩
  let o : Origin := ⟨berth, [], .empty⟩
  let c : Coordinator := { Coordinator.ofConfig {} with role := .primary, peers := ⟨[("b", "b:1"), ("c", "c:1")]⟩ }
  obtain ⟨m, p, stands, tail⟩ := Engine.exists_stands
  have fits : (Entry.put [1] [2]).Fits .memory := ⟨⟨by decide, by decide⟩, by decide, trivial⟩
  have begun : Reached o (.begin c m [p] 1) := .begin rfl stands (by simp [o]) (tail ▸ List.mem_cons_self)
  have room : (0 : UInt64).toNat + 1 < 2 ^ 64 := by decide
  have room' : (1 : UInt64).toNat + 1 < 2 ^ 64 := by decide
  have allotted := begun.step (.carry ⟨.aside (.allot "b" rfl room), rfl⟩)
  have next := allotted.step (.carry ⟨.aside (.allot "c" rfl room'), rfl⟩)
  have other := next.step (.carry ⟨.aside (.enlist 0 "c" 2 rfl), rfl⟩)
  let ahead : Coordinator := { c with generations := 2, standbys := ⟨[("c", ⟨.ready, [], 2, 0⟩)]⟩ }
  have ready := other.step (.carry ⟨.aside (.confirm 0 "c" 2 ahead rfl), rfl⟩)
  obtain ⟨m₂, wrote, stands₂, -⟩ := stands.log (.put [1] [2]) (by decide)
  obtain ⟨m₃, apply, stands₃, -⟩ := stands₂.apply fits.client fits.accepted
  obtain ⟨m₄, mark, stands₄, -⟩ := stands₃.setVersion m₂.item.tail
  let record : LoggedEntry := ⟨m₂.item.tail, .put [1] [2]⟩
  have start : ∀ {x}, Reached o x → ReflTransGen (Step o) (x.enlist 0 "b" 1) (x.enlist 0 "b" 1) := fun _ => .refl
  have logged := (start ready).tail (.change ⟨.log rfl fits wrote, by simp⟩)
  have applied := logged.tail (.change ⟨.apply rfl apply, by simp⟩)
  have marked := applied.tail (.change ⟨.mark rfl mark, by simp⟩)
  have shipped := marked.tail (.ship rfl (.collect (shipment record) _ rfl rfl (List.Perm.refl _)) rfl)
  have failed := shipped.tail (.carry ⟨.lead (.fail _ _ "no answer" rfl), rfl⟩)
  have unlocked := failed.tail (.carry ⟨.lead (.unlock rfl), rfl⟩)
  have answered := unlocked.tail (.answer rfl (by simp) rfl (.inr ⟨["c: no answer"], rfl⟩))
  have reserved : Engine.isReserved (Entry.put Engine.versionKey []).key = true := by decide
  have refused := answered.tail (.refuse rfl reserved (Engine.change_reserved _ reserved))
  have confirmed := refused.tail (.carry ⟨.aside (.confirm 0 "b" 1 _ rfl), rfl⟩)
  have released := confirmed.tail (.carry ⟨.lead (.release "b" 1 _ rfl rfl), rfl⟩)
  have sent := released.tail (.carry ⟨.lead (.send "b" 1 (shipment record) [] [] rfl), rfl⟩)
  have finished := sent.tail (.carry ⟨.lead (.finish 0 "b" 1 [] rfl), rfl⟩)
  have rests := finished.tail (.carry ⟨.lead (.unlock rfl), rfl⟩)
  have small : 1 + (Entry.put [1] [2]).pages < 2 ^ 64 := by decide
  exact ⟨o, _, 0, "b", 1, _, _, ready, rfl, rfl, rests, small, rfl, rfl, rfl, rfl, rfl, rfl,
    ready.feeds rfl rfl rests small rfl rfl rfl⟩

end Feed
end Shiplog
