import Shiplog.Proofs.Journals

/-!
A log through crashes. A session of a log writes records, enters terms and restarts, and
may die at any time, in the middle of a record too, its newest file then cut anywhere.
Whatever happened, taking up the log succeeds at the end of the newest file, a scan from
the start gives exactly the records whose last page is still there, and taking it up
once more changes no file (`Session.run_recovers`).
-/
namespace Shiplog

/-- A log at work over a file tree, or between two lives. -/
structure Session where
  log : Mounted Log
  /-- The records of which the last page was written and has survived every crash, with
      the positions after that page. -/
  records : List (Position × Bytes)

namespace Session

/-- What can happen to a log. -/
inductive Event where
  | write (record : Bytes)
  | startTerm (term : UInt64)
  /-- A new log over the directory, taken up. -/
  | restart
  /-- The log dies after some pages of a record. -/
  | interrupt (record : Bytes) (pages : Nat)
  /-- The log dies, and the newest file is cut to a length. -/
  | crash (length : Nat)

def begin (disk : FileTree) (dir : Path) (limit : UInt64) : Session := ⟨⟨disk, .fresh dir limit⟩, []⟩

/-- What an action on the log leaves of the session. -/
def after {α : Type} (act : Action (Mounted Log) α) (s : Session) : Session := { s with log := (act.perform s.log).2 }

/-- The log is gone; what comes next is a new one over the same directory. -/
def die (s : Session) : Session :=
  { s with log := ⟨s.log.disk, .fresh s.log.item.dir s.log.item.tail.limit⟩ }

/-- A record counts as written, with the end of the log as its position. -/
def keep (record : Bytes) (s : Session) : Session :=
  { s with records := s.records ++ [(s.log.item.position, record)] }

/-- Some pages of a record written, and the record kept if they are all of them. -/
def writePart (record : Bytes) (pages : Nat) (s : Session) : Session :=
  let part := (Record.split record).take pages
  let s := s.after (Log.onTail (part.forM fun page => Tail.appendPage page.1 page.2))
  if part = Record.split record then s.keep record else s

/-- The newest file is cut, and the records that end beyond are lost. -/
def cut (length : Nat) (s : Session) : Session where
  log := { s.log with disk := cutNewest length s.log.item.dir s.log.disk }
  records := survivors length s.log.item.dir s.log.disk s.records

/-- One event. A log that is not taken up writes nothing. -/
def step (s : Session) : Event → Session
  | .write record => if s.log.item.mounted then (s.after (Log.write record)).keep record else s
  | .startTerm term => if s.log.item.mounted then s.after (Log.startTerm term) else s
  | .restart => s.die.after Log.mount
  | .interrupt record pages => if s.log.item.mounted then (s.writePart record pages).die else s
  | .crash length => (s.cut length).die

def run (s : Session) (events : List Event) : Session := events.foldl step s

/-- The pages that an event may write and the files that it may create. -/
def Event.cost : Event → Nat
  | .write record => (Record.split record).length
  | .startTerm _ => 1
  | .restart => 1
  | .interrupt record _ => (Record.split record).length
  | .crash _ => 0

def cost (events : List Event) : Nat := (events.map Event.cost).sum

/-! ## What holds throughout -/

/-- The invariant of sessions: the directory holds the records, and a log that is up is
    their journal. -/
structure Sound (s : Session) (dir place : Path) (limit : UInt64) (bound : Nat) : Prop where
  sameDir : s.log.item.dir = dir
  sameLimit : s.log.item.tail.limit = limit
  dormant : Dormant s.log.disk dir place bound s.records []
  up : s.log.item.mounted = true → Journal s.log place bound s.records []

variable {s : Session} {dir place : Path} {limit : UInt64} {bound : Nat}

theorem sound_begin {t : FileTree} (sound : t.Sound) (hosts : t.Hosts dir place Segment.nameWidth)
    (empty : t.children place = []) (limit : UInt64) : Sound (begin t dir limit) dir place limit 0 :=
  ⟨rfl, rfl, .nil sound hosts empty, by simp [begin, Log.fresh]⟩

theorem Sound.die (sound : Sound s dir place limit bound) : Sound s.die dir place limit bound :=
  ⟨sound.sameDir, sound.sameLimit, sound.dormant, by simp [Session.die, Log.fresh]⟩

/-- What becomes of a session when its log goes on as another journal. -/
private theorem Sound.goes (sound : Sound s dir place limit bound) {m : Mounted Log} {bound' : Nat}
    {records : List (Position × Bytes)} {given : List Position} (journal : Journal m place bound' records given)
    (within : Tail.Within place (Log.tailOf s.log) (Log.tailOf m)) : Sound ⟨m, records⟩ dir place limit bound' := by
  have sameDir : m.item.dir = dir := within.dir.trans sound.sameDir
  have journal := journal.subset (List.nil_subset _)
  have dormant := journal.dormant
  rw [sameDir] at dormant
  exact ⟨sameDir, within.limit.trans sound.sameLimit, dormant, fun _ => journal⟩

theorem Sound.write (sound : Sound s dir place limit bound) (up : s.log.item.mounted = true) (record : Bytes)
    (small : bound + (Record.split record).length < 2 ^ 64) :
    Sound ((s.after (Log.write record)).keep record) dir place limit (bound + (Record.split record).length) := by
  obtain ⟨m, done, journal, -, within⟩ := (sound.up up).write record small
  have next : (s.after (Log.write record)).keep record = ⟨m, s.records ++ [(m.item.position, record)]⟩ := by
    rw [after, done, keep]
  rw [next]
  exact sound.goes journal within

theorem Sound.startTerm (sound : Sound s dir place limit bound) (up : s.log.item.mounted = true) (term : UInt64)
    (small : bound + 1 < 2 ^ 64) : Sound (s.after (Log.startTerm term)) dir place limit (bound + 1) := by
  by_cases higher : s.log.item.position.term < term
  · obtain ⟨m, done, journal, -, within⟩ := (sound.up up).startTerm higher small
    have next : s.after (Log.startTerm term) = ⟨m, s.records⟩ := by rw [after, done]
    rw [next]
    exact sound.goes journal within
  · obtain ⟨e, refused⟩ := Log.startTerm_low (UInt64.not_lt.mp higher)
    have next : s.after (Log.startTerm term) = s := by rw [after, refused]
    rw [next]
    exact sound.goes ((sound.up up).mono (Nat.le_succ _) small) (.refl _ _)

theorem Sound.mount (sound : Sound s dir place limit bound) (small : bound + 1 < 2 ^ 64) :
    Sound (s.after Log.mount) dir place limit (bound + 1) := by
  have dormant := sound.dormant
  rw [← sound.sameDir] at dormant
  obtain ⟨m, done, journal, within⟩ := dormant.mount small
  have next : s.after Log.mount = ⟨m, s.records⟩ := by rw [after, done]
  rw [next]
  exact sound.goes journal within

theorem Sound.interrupt (sound : Sound s dir place limit bound) (up : s.log.item.mounted = true) (record : Bytes)
    (pages : Nat) (small : bound + (Record.split record).length < 2 ^ 64) :
    Sound (s.writePart record pages).die dir place limit (bound + (Record.split record).length) := by
  obtain ⟨m, done, all, part, within⟩ := (sound.up up).interrupt record pages small
  have next : s.after (Log.onTail (((Record.split record).take pages).forM fun page => Tail.appendPage page.1 page.2)) =
      ⟨m, s.records⟩ := by rw [after, done]
  by_cases whole : (Record.split record).take pages = Record.split record
  · rw [writePart, next, if_pos whole]
    exact (sound.goes (all whole) within).die
  · rw [writePart, next, if_neg whole]
    have dormant := part whole
    rw [sound.sameDir] at dormant
    exact ⟨within.dir.trans sound.sameDir, within.limit.trans sound.sameLimit, dormant, by simp [Session.die, Log.fresh]⟩

theorem Sound.cut (sound : Sound s dir place limit bound) (length : Nat) :
    Sound (s.cut length).die dir place limit bound := by
  have dormant := sound.dormant.cut length
  refine ⟨sound.sameDir, sound.sameLimit, ?_, by simp [Session.die, Log.fresh]⟩
  rw [← sound.sameDir] at dormant ⊢
  exact dormant

theorem Sound.mono {bound' : Nat} (sound : Sound s dir place limit bound) (le : bound ≤ bound') (small : bound' < 2 ^ 64) :
    Sound s dir place limit bound' :=
  ⟨sound.sameDir, sound.sameLimit, sound.dormant.mono le small, fun up => (sound.up up).mono le small⟩

/-- Every event keeps the invariant. -/
theorem Sound.step (sound : Sound s dir place limit bound) (event : Event) (small : bound + event.cost < 2 ^ 64) :
    Sound (s.step event) dir place limit (bound + event.cost) := by
  have stays : Sound s dir place limit (bound + event.cost) := sound.mono (Nat.le_add_right _ _) small
  cases event with
  | write record =>
    by_cases up : s.log.item.mounted = true
    · simpa [Session.step, up, Event.cost] using sound.write up record small
    · simpa [Session.step, up] using stays
  | startTerm term =>
    by_cases up : s.log.item.mounted = true
    · simpa [Session.step, up, Event.cost] using sound.startTerm up term small
    · simpa [Session.step, up] using stays
  | restart => exact sound.die.mount small
  | interrupt record pages =>
    by_cases up : s.log.item.mounted = true
    · simpa [Session.step, up, Event.cost] using sound.interrupt up record pages small
    · simpa [Session.step, up] using stays
  | crash length => exact sound.cut length

/-- Every run keeps the invariant. -/
theorem Sound.run (sound : Sound s dir place limit bound) (events : List Event) (small : bound + cost events < 2 ^ 64) :
    Sound (s.run events) dir place limit (bound + cost events) := by
  induction events generalizing s bound with
  | nil => exact sound
  | cons event rest ih =>
    simp only [cost, List.map_cons, List.sum_cons] at small ⊢
    rw [← Nat.add_assoc] at small ⊢
    exact ih (sound.step event (by omega)) small

/-! ## Recovery -/

/-- What the directory of a log promises: the log can be taken up, at the end of its newest
    file; a scan from the start then gives the surviving records and nothing else; and taking
    up this log, or a new one, once more changes no file. -/
def Recovers (s : Session) (dir : Path) (limit : UInt64) : Prop :=
  ∃ position m, Log.mount.perform ⟨s.log.disk, .fresh dir limit⟩ = (.ok position, m) ∧
    endOfNewest? m.disk dir = some position ∧ Log.scan m.disk m.item .start = ⟨s.records, none⟩ ∧
    ∀ log, log = .fresh dir limit ∨ log = m.item →
      ∃ m', Log.mount.perform ⟨m.disk, log⟩ = (.ok position, m') ∧ m'.disk = m.disk

theorem Sound.recovers (sound : Sound s dir place limit bound) (small : bound + 2 < 2 ^ 64) : Recovers s dir limit := by
  have dormant : Dormant (⟨s.log.disk, .fresh dir limit⟩ : Mounted Log).disk
      (⟨s.log.disk, .fresh dir limit⟩ : Mounted Log).item.dir place bound s.records [] := sound.dormant
  obtain ⟨m, done, journal, within⟩ := dormant.mount (by omega)
  have ends := journal.endOfNewest
  have home : m.item.dir = dir := within.dir
  rw [home] at ends
  refine ⟨m.item.position, m, done, ends, journal.scan_start, fun log which => ?_⟩
  have sameDir : log.dir = m.item.dir := by
    rcases which with rfl | rfl
    · exact within.dir.symm
    · rfl
  obtain ⟨log', again, -⟩ := journal.mount sameDir (by omega)
  exact ⟨⟨m.disk, log'⟩, again, rfl⟩

/-- Through any run of writes, terms, restarts and crashes from an empty directory, as long
    as the pages and files can be counted, the log recovers; and a log that is up gives
    the surviving records, too. -/
theorem run_recovers {t : FileTree} (sound : t.Sound) (hosts : t.Hosts dir place Segment.nameWidth)
    (empty : t.children place = []) (limit : UInt64) (events : List Event) (small : cost events + 2 < 2 ^ 64) :
    Recovers ((begin t dir limit).run events) dir limit ∧
      (((begin t dir limit).run events).log.item.mounted = true →
        Log.scan ((begin t dir limit).run events).log.disk ((begin t dir limit).run events).log.item .start =
          ⟨((begin t dir limit).run events).records, none⟩) := by
  have ends := (sound_begin sound hosts empty limit).run events (by omega)
  rw [Nat.zero_add] at ends
  exact ⟨ends.recovers small, fun up => (ends.up up).scan_start⟩

/-- A page cut short, and a record written after the repair. -/
theorem run_recovers_after_cut : FileTree.empty.Sound ∧ FileTree.empty.Hosts [""] [] Segment.nameWidth ∧
    FileTree.empty.children [] = [] ∧
    cost [.restart, .write [7], .write [8], .crash 4100, .restart, .write [9]] + 2 < 2 ^ 64 ∧
    Recovers ((begin FileTree.empty [""] 8192).run
      [.restart, .write [7], .write [8], .crash 4100, .restart, .write [9]]) [""] 8192 := by
  have hosts : FileTree.empty.Hosts [""] [] Segment.nameWidth := ⟨rfl, rfl, by decide⟩
  exact ⟨.empty, hosts, rfl, by decide,
    (run_recovers .empty hosts rfl 8192 [.restart, .write [7], .write [8], .crash 4100, .restart, .write [9]] (by decide)).1⟩

end Session
end Shiplog
