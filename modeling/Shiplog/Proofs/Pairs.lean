import Shiplog.Proofs.Installs
import Shiplog.Proofs.Lives
import Shiplog.Proofs.Traffic
import Shiplog.Wire.Frame

/-!
A primary and one of its standbys. The writer of the primary, the registrations of the
standby, the traffic of the primary and the standby itself take their steps in any order
(`Pair.Step`), from any two engines that are up (`Pair.Reached.of_lives`). Shipped logs
reach the standby once, often, late or never; answers to registrations may be lost, and
installing one may fail. The parts of a write and of an answer are those of the engine
(`Pair.write_runs`, `Pair.answer_runs`).
-/
namespace Shiplog

/-- How far a write of the primary is. -/
inductive Writing where
  | idle
  /-- Its entry is in the log. -/
  | logged (record : LoggedEntry)
  /-- Its entry has taken effect, too. -/
  | applied (record : LoggedEntry)
  /-- Its position is marked as the version, too. -/
  | marked (record : LoggedEntry)
  | shipping

/-- How far the answer to a registration is. -/
inductive Answer where
  | begun
  | versioned (position : Position)
  /-- The version and the client's entries are read. -/
  | dumped (position : Position) (entries : List (Bytes × Bytes))
  /-- The records after the version are read, too. -/
  | made (sync : SyncPayload)
  /-- The registration is ready and the answer on its way. -/
  | sent (sync : SyncPayload)

/-- The primary's work on a registration. -/
structure Call where
  /-- The handshake of the standby that asked for it. -/
  handshake : Nat
  answer : Answer

/-- A primary, whose engine is at home, and a standby, whose engine is away, with an account
    of what they have done. -/
structure Pair where
  traffic : Traffic
  home : Mounted Engine
  away : Mounted Engine
  writing : Writing
  /-- The records that the primary has written. -/
  written : List LoggedEntry
  /-- The positions that the primary's log has given out. -/
  given : List Position
  homePages : Nat
  awayPages : Nat
  /-- The primary's work on each registration of the standby. -/
  calls : UInt64 → Option Call
  /-- The number of handshakes that the standby ever began. -/
  handshakes : Nat
  /-- The handshake that the standby is in, if it is in one; it takes no logs then. -/
  waiting : Option Nat
  /-- The logs on their way to the standby. -/
  sent : List Bytes
  /-- The logs that the standby has taken over. -/
  answered : List Bytes
  /-- The registration whose answer the standby has installed, unless it has failed to
      install a later one. -/
  based : Option UInt64

namespace Pair

/-- What a pair starts from. -/
structure Setting where
  /-- Where the primary keeps its log and its store. -/
  home : Berth
  away : Berth
  node : String
  /-- The records in the log of the primary at first. -/
  before : List LoggedEntry
  /-- The client's entries in the store of the primary at first. -/
  user : OrderedMap Bytes Bytes

/-- The log that a record is shipped as. -/
def shipment (record : LoggedEntry) : Bytes := LoggedEntry.layout.write record

variable (s : Setting)

/-! ## Steps -/

section
variable (x : Pair)

/-- The writer of the primary. -/
inductive Write : Pair → Prop where
  | log {entry home p} (idle : x.writing = .idle) (fits : entry.Fits s.home.backend) (fitsAway : entry.Fits s.away.backend)
      (done : (Engine.onLog (Log.write (Entry.layout.write entry))).perform x.home = (.ok p, home)) :
      Write { x with
        home
        writing := .logged ⟨p, entry⟩
        written := x.written ++ [⟨p, entry⟩]
        given := x.given ++ [p]
        homePages := x.homePages + entry.pages }
  | apply {record home} (next : x.writing = .logged record)
      (done : (Engine.apply record.entry).perform x.home = (.ok (), home)) :
      Write { x with home, writing := .applied record }
  | mark {record home} (next : x.writing = .applied record)
      (done : (Engine.setMarker Engine.versionKey record.position).perform x.home = (.ok (), home)) :
      Write { x with home, writing := .marked record }
  | ship {record traffic} (next : x.writing = .marked record) (step : Traffic.Lead x.traffic traffic)
      (shipped : traffic.shipped = x.traffic.shipped ++ [shipment record]) :
      Write { x with traffic, writing := .shipping }
  | done (next : x.writing = .shipping) (ended : ∀ log, x.traffic.job ≠ some (.ship log)) :
      Write { x with writing := .idle }

/-- The primary's work on registrations of the standby. A request may be worked on late and
    more than once. -/
inductive Register : Pair → Prop where
  | allot (welcome : x.traffic.coordinator.refusal? s.node = none)
      (room : x.traffic.coordinator.generations.toNat + 1 < 2 ^ 64) :
      Register { x with traffic := x.traffic.allot s.node }
  /-- A registration is made, whatever has been made since its number was given out. -/
  | enlist {g handshake} (now : Nat) (claimed : x.traffic.claimed g = some s.node) (asked : handshake < x.handshakes) :
      Register { x with
        traffic := x.traffic.enlist now s.node g
        calls := Function.update x.calls g (some ⟨handshake, .begun⟩) }
  | version {g handshake p} (call : x.calls g = some ⟨handshake, .begun⟩)
      (read : Engine.version x.home.disk x.home.item = .ok p) :
      Register { x with calls := Function.update x.calls g (some ⟨handshake, .versioned p⟩) }
  | dump {g handshake p entries} (call : x.calls g = some ⟨handshake, .versioned p⟩)
      (read : Engine.clients x.home.disk x.home.item = .ok entries) :
      Register { x with calls := Function.update x.calls g (some ⟨handshake, .dumped p entries⟩) }
  | gather {g handshake p entries logs} (term now : UInt64) (call : x.calls g = some ⟨handshake, .dumped p entries⟩)
      (read : Engine.logsAfter p x.home.disk x.home.item = .ok logs)
      (short : Frame.checkLength (SyncPayload.layout.write ⟨⟨p, term, now, entries⟩, logs⟩).length = .ok ()) :
      Register { x with calls := Function.update x.calls g (some ⟨handshake, .made ⟨⟨p, term, now, entries⟩, logs⟩⟩) }
  | confirm {g handshake sync c} (now : Nat) (call : x.calls g = some ⟨handshake, .made sync⟩)
      (confirmed : x.traffic.coordinator.confirm? now s.node g = some c) :
      Register { x with
        traffic := { x.traffic with coordinator := c }
        calls := Function.update x.calls g (some ⟨handshake, .sent sync⟩) }

/-- The traffic of the primary apart from the shipping of its own writes. A log counts as
    received by the standby only when the standby has taken it over. -/
inductive Carry : Pair → Prop where
  | aside {traffic} (step : Traffic.Aside x.traffic traffic) : Carry { x with traffic }
  | lead {traffic} (step : Traffic.Lead x.traffic traffic) (shipped : traffic.shipped = x.traffic.shipped)
      (answered : ∀ g log, traffic.arrived s.node g = x.traffic.arrived s.node g ++ [log] → log ∈ x.answered) :
      Carry { x with traffic }
  | transmit {g log logs rest} (next : x.traffic.underway = ⟨s.node, g, log :: logs⟩ :: rest) :
      Carry { x with sent := x.sent ++ [log] }

/-- The standby. It asks to be registered and installs the answer under one lock, which it
    also needs to take over a log. -/
inductive Receive : Pair → Prop where
  | ask (free : x.waiting = none) : Receive { x with handshakes := x.handshakes + 1, waiting := some x.handshakes }
  /-- No answer comes. -/
  | lose : Receive { x with waiting := none }
  | install {g handshake sync away} (waits : x.waiting = some handshake)
      (reply : x.calls g = some ⟨handshake, .sent sync⟩)
      (done : (Engine.installPayload (SyncPayload.layout.write sync)).perform x.away = (.ok (), away)) :
      Receive { x with
        away
        awayPages := x.awayPages + Engine.pages sync.logs
        waiting := none
        based := some g }
  /-- The answer is not installed, or not wholly; the store may hold anything then. -/
  | spoil {g handshake sync away pages logged given c} (waits : x.waiting = some handshake)
      (reply : x.calls g = some ⟨handshake, .sent sync⟩) (stands : Engine.Stands s.away away pages logged given c)
      (more : x.awayPages ≤ pages) :
      Receive { x with away, awayPages := pages, waiting := none, based := none }
  /-- A log that was sent, now or at any time before, is taken over. -/
  | take {log record away} (free : x.waiting = none) (arrived : log ∈ x.sent)
      (parsed : LoggedEntry.layout.parse log = .ok record)
      (done : (Engine.applyPayload log).perform x.away = (.ok (), away)) :
      Receive { x with
        away
        awayPages := x.awayPages + record.entry.pages
        answered := x.answered ++ [log] }
  /-- A log is applied, but the fence is not moved, and the primary is not told. -/
  | stumble {log record fence p away} (free : x.waiting = none) (arrived : log ∈ x.sent)
      (parsed : LoggedEntry.layout.parse log = .ok record)
      (read : Engine.replicated x.away.disk x.away.item = .ok fence) (new : Engine.isOld fence record = false)
      (done : (Engine.logAndApply record.entry).perform x.away = (.ok p, away)) :
      Receive { x with away, awayPages := x.awayPages + record.entry.pages }

/-- One step, of the primary or of the standby. -/
inductive Step : Pair → Prop where
  | write {y} (step : Write s x y) : Step y
  | register {y} (step : Register s x y) : Step y
  | carry {y} (step : Carry s x y) : Step y
  | receive {y} (step : Receive s x y) : Step y

end

/-- What a pair can come to. At first the primary is up, with no registrations and a version
    that covers its log; the standby is up with whatever it holds. -/
inductive Reached : Pair → Prop where
  | begin {c home away v replicated given given' homePages awayPages logged content} (empty : c.standbys = .empty)
      (stands : Engine.Stands s.home home homePages s.before given ⟨s.user, some v, replicated⟩)
      (known : v ∈ given) (within : v ≤ home.item.tail) (covers : ∀ r ∈ s.before, r.position ≤ v)
      (counted : ∀ r ∈ s.before, r.entry.Counted) (takes : s.away.backend.Takes s.user)
      (standsAway : Engine.Stands s.away away awayPages logged given' content) :
      Reached ⟨.begin c, home, away, .idle, [], given, homePages, awayPages, fun _ => none, 0, none, [], [], none⟩
  | step {x y} (reached : Reached x) (step : Step s x y) : Reached y

variable {s} {x : Pair}

/-- A pair starts from any two engines that are up, whatever their lives, if the standby's
    backend takes the client's keys at the primary. -/
theorem Reached.of_lives {c : Coordinator} {home away : Mounted Engine} {given given' : List Position}
    {homePages awayPages : Nat} {logged : List LoggedEntry} (empty : c.standbys = .empty)
    (lived : Engine.Lived s.home home homePages s.before given) (up : home.item.log.mounted = true)
    (clients : Engine.clients home.disk home.item = .ok s.user.entries) (takes : s.away.backend.Takes s.user)
    (livedAway : Engine.Lived s.away away awayPages logged given') (upAway : away.item.log.mounted = true)
    (small : homePages < 2 ^ 64) (smallAway : awayPages < 2 ^ 64) :
    Reached s ⟨.begin c, home, away, .idle, [], given, homePages, awayPages, fun _ => none, 0, none, [], [], none⟩ := by
  obtain ⟨content, lasts⟩ := lived.lasts small
  obtain ⟨contentAway, lastsAway⟩ := livedAway.lasts smallAway
  obtain ⟨v, version, within, covers⟩ := lasts.settled up
  have stands := lasts.stands up
  have same : content = ⟨s.user, some v, content.replicated⟩ := by rw [← stands.user_eq clients, ← version]
  rw [same] at stands
  exact .begin empty stands (lasts.known v version) within covers (fun r member => (lasts.fits r member).counted) takes
    (lastsAway.stands upAway)

/-! ## The parts of a write and of an answer -/

/-- A change of the primary's engine, taken apart. -/
theorem write_runs {entry : Entry} {p : Position} {home : Mounted Engine} (idle : x.writing = .idle)
    (fits : entry.Fits s.home.backend) (fitsAway : entry.Fits s.away.backend)
    (done : (Engine.change entry).perform x.home = (.ok p, home)) :
    ∃ y, Relation.ReflTransGen (Write s) x y ∧ y.home = home ∧ y.writing = .marked ⟨p, entry⟩ := by
  obtain ⟨m₁, m₂, logged, applied, marked⟩ := Engine.change_eq_ok done
  have toLogged := Relation.ReflTransGen.single (Write.log idle fits fitsAway logged)
  have toApplied := toLogged.tail (.apply rfl applied)
  have toMarked := toApplied.tail (.mark rfl marked)
  exact ⟨_, toMarked, rfl, rfl⟩

/-- What the primary's engine answers to a registration, taken apart. -/
theorem answer_runs {g : UInt64} {handshake : Nat} {now : UInt64} {payload : Bytes} {home : Mounted Engine}
    (call : x.calls g = some ⟨handshake, .begun⟩) (done : (Engine.payload now).perform x.home = (.ok payload, home))
    (short : Frame.checkLength payload.length = .ok ()) :
    ∃ y sync, Relation.ReflTransGen (Register s) x y ∧ y.home = home ∧ y.calls g = some ⟨handshake, .made sync⟩ ∧
      payload = SyncPayload.layout.write sync := by
  rw [Engine.payload, Action.perform_bind, Mounted.perform_reading] at done
  cases made : Engine.syncPayload now x.home.disk x.home.item with
  | error e => simp [made] at done
  | ok sync =>
    simp only [made, Action.perform_pure, Prod.mk.injEq, Except.ok.injEq] at done
    obtain ⟨rfl, rfl⟩ := done
    obtain ⟨p, entries, logs, version, clients, after, rfl⟩ := Engine.syncPayload_eq_ok made
    have toVersion := Relation.ReflTransGen.single (Register.version (s := s) call version)
    have toDump := toVersion.tail (.dump (Function.update_self _ _ _) clients)
    have toGather := toDump.tail (.gather x.home.item.tail.term now (Function.update_self _ _ _) after short)
    exact ⟨_, _, toGather, rfl, Function.update_self _ _ _, rfl⟩

end Pair
end Shiplog
