import Shiplog.Proofs.Engines
import Shiplog.Proofs.Remains

/-!
A log over its whole history. It writes records, enters terms, restarts, dies and has its
newest file cut, and at any time some of its oldest files are deleted, the newest never
(`History.Event`). A replay after any position that no record straddles then says so if the
position is past the end, or if what is left does not go back far enough, before it hands over
anything; otherwise it hands over every record after the position, as it was written
(`History.run_serves`).
-/
namespace Shiplog

/-! ## Replays -/

/-- The records that end after a position. -/
def recordsAfter (p : Position) (records : List (Position × Bytes)) : List (Position × Bytes) :=
  records.filter fun record => decide (p < record.1)

/-- Records spell entries, each at its position. -/
def Spells (records : List (Position × Bytes)) (entries : List LoggedEntry) : Prop :=
  List.Forall₂ (fun record entry => record.1 = entry.position ∧ Entry.layout.parse record.2 = .ok entry.entry) records entries

/-- Hands the records from the segment of a position on over in order, and gives the end of
    the log. -/
def Log.replay {σ : Type} (m : Mounted Log) (after : Position) (apply : Position → Bytes → Action σ Unit) :
    Action σ Position := do
  (Log.scan m.disk m.item after).deliver apply
  return m.item.position

/-- Takes every record that is handed over. -/
def gather (position : Position) (record : Bytes) : Action (List (Position × Bytes)) Unit :=
  Action.ofStep fun found => (.ok (), found ++ [(position, record)])

/-- What a replay gives, and the records that it hands over to someone who takes them all. -/
def Log.replayed (m : Mounted Log) (after : Position) : Except Error Position × List (Position × Bytes) :=
  (Log.replay m after gather).perform []

namespace Scan

theorem perform_gather (records found : List (Position × Bytes)) :
    (deliver ⟨records, none⟩ gather).perform found = (.ok (), found ++ records) := by
  induction records generalizing found with
  | nil => simp [deliver, List.forM]
  | cons record rest ih =>
    rw [perform_deliver_cons]
    have later := ih (found ++ [record])
    rw [List.append_assoc] at later
    exact later

end Scan

namespace Log

variable {m : Mounted Log} {p : Position} {records : List (Position × Bytes)} {e : Error}

/-- Hands some records over in order, and comes to an outcome if none is refused. -/
def calls {σ : Type} (records : List (Position × Bytes)) (outcome : Except Error Position)
    (apply : Position → Bytes → Action σ Unit) : Action σ Position := do
  records.forM fun (position, record) => apply position record
  Action.ofExcept outcome

/-- A replay is these calls for the records of its scan. -/
theorem perform_replay_of {stopped : Option Error} (scan : Log.scan m.disk m.item p = ⟨records, stopped⟩) {σ : Type}
    (apply : Position → Bytes → Action σ Unit) (s : σ) :
    (replay m p apply).perform s = (calls records (stopped.elim (.ok m.item.position) .error) apply).perform s := by
  rw [replay, scan, Action.perform_bind, Scan.deliver, Action.perform_bind, calls, Action.perform_bind]
  generalize (records.forM fun (position, record) => apply position record) = each
  rcases each.perform s with ⟨e | _, s'⟩
  · rfl
  · cases stopped <;> rfl

/-- Nothing is handed over before a replay that fails at once. -/
theorem perform_replay_failed (scan : Log.scan m.disk m.item p = .failed e) {σ : Type}
    (apply : Position → Bytes → Action σ Unit) (x : σ) : (replay m p apply).perform x = (.error e, x) := by
  rw [perform_replay_of scan]
  rfl

theorem replayed_of_failed (scan : Log.scan m.disk m.item p = .failed e) : replayed m p = (.error e, []) :=
  perform_replay_failed scan _ _

theorem replayed_of_found (scan : Log.scan m.disk m.item p = ⟨records, none⟩) :
    replayed m p = (.ok m.item.position, records) := by
  rw [replayed, replay, scan, Action.perform_bind, Scan.perform_gather]
  rfl

end Log

namespace Engine

theorem decodeAfter_of_spells {p : Position} {records : List (Position × Bytes)} {entries : List LoggedEntry}
    (spells : Spells (recordsAfter p records) entries) : decodeAfter p records = .ok entries := by
  induction records generalizing entries with
  | nil =>
    cases spells
    rfl
  | cons record rest ih =>
    obtain ⟨position, bytes⟩ := record
    by_cases less : p < position
    · rw [recordsAfter, List.filter_cons_of_pos (by simpa using less)] at spells
      cases spells with
      | @cons _ entry _ entries here later =>
        obtain ⟨rfl, parsed⟩ := here
        have after := ih later
        rw [decodeAfter, if_pos less, after, parsed]
        rfl
    · rw [recordsAfter, List.filter_cons_of_neg (by simpa using less)] at spells
      rw [decodeAfter, if_neg less]
      exact ih spells

end Engine

/-- What a log promises of a replay after a position, when these segments are left and these
    records were written and not lost in a crash. -/
structure Log.Serves (m : Mounted Log) (segments : List Segment) (spans : List Span) (p : Position) : Prop where
  /-- A position is ahead just if it is greater than the end of the log. -/
  ahead : (Log.replayed m p).1 = .error (.aheadOfTail p m.item.position) ↔ m.item.position < p
  /-- What is left is insufficient only for a position before all segments, or before the oldest
      that is left. -/
  before : ∀ q, (Log.replayed m p).1 = .error (.insufficientHistory p q) → p.collection = 0 ∨
    ∃ s ∈ segments.head?, p.term < s.term ∨ p.term = s.term ∧ p.collection < s.collection
  /-- It is insufficient where a record after the position lacks a part. -/
  lacking : (∃ span ∈ spans, p < span.last ∧ span.LacksPart segments) →
    ∃ q, (Log.replayed m p).1 = .error (.insufficientHistory p q)
  /-- There are no other errors, and each comes before any record is handed over. -/
  fails : ∀ e, (Log.replayed m p).1 = .error e → (e = .aheadOfTail p m.item.position ∨ ∃ q, e = .insufficientHistory p q) ∧
    ∀ {σ : Type} (apply : Position → Bytes → Action σ Unit) (x : σ), (Log.replay m p apply).perform x = (.error e, x)
  /-- Otherwise the end of the log is given, and what is handed over holds every record after
      the position. -/
  found : ∀ tail, (Log.replayed m p).1 = .ok tail →
    tail = m.item.position ∧ recordsAfter p (Log.replayed m p).2 = recordsAfter p (spans.map Span.record)
  /-- Where the records are entries, an engine over the log gives just these. -/
  entries : ∀ (engine : Engine) (logs : List LoggedEntry), engine.log = m.item →
    Spells (recordsAfter p (spans.map Span.record)) logs →
    Engine.logsAfter p m.disk engine = (Log.replayed m p).1.map fun _ => logs

theorem recordsAfter_append_of_not_lt {p : Position} {passed : List Span} (old : ∀ span ∈ passed, ¬ p < span.last)
    (kept : List Span) :
    recordsAfter p ((passed ++ kept).map Span.record) = recordsAfter p (kept.map Span.record) := by
  have none_left : recordsAfter p (passed.map Span.record) = [] := by
    rw [recordsAfter, List.filter_eq_nil_iff]
    intro record member
    obtain ⟨span, inside, rfl⟩ := List.mem_map.mp member
    exact fun later => old span inside (of_decide_eq_true later)
  rw [List.map_append, recordsAfter, List.filter_append]
  rw [recordsAfter] at none_left
  rw [none_left, List.nil_append, recordsAfter]

/-- A log whose scan answers serves. -/
theorem Verdict.serves {m : Mounted Log} {segments : List Segment} {spans : List Span} {p : Position}
    (answer : Verdict segments spans m.item.position p (Log.scan m.disk m.item p)) : Log.Serves m segments spans p := by
  cases scan : Log.scan m.disk m.item p with
  | mk records stopped =>
    rw [scan] at answer
    have logs : ∀ engine : Engine, engine.log = m.item → engine.log.scan m.disk p = ⟨records, stopped⟩ := by
      intro engine same
      rw [same]
      exact scan
    cases answer with
    | ahead beyond nothing =>
      have replayed := Log.replayed_of_failed scan
      refine ⟨by simp [replayed, beyond], by simp [replayed], ?_, ?_, by simp [replayed], ?_⟩
      · rintro ⟨span, member, further, -⟩
        exact absurd further (nothing span member)
      · intro e given
        obtain rfl : Error.aheadOfTail p m.item.position = e := by simpa [replayed] using given
        exact ⟨.inl rfl, fun apply x => Log.perform_replay_failed scan apply x⟩
      · intro engine entries same _
        rw [Engine.logsAfter, logs engine same, replayed]
        rfl
    | @insufficient oldest within first before =>
      have replayed := Log.replayed_of_failed scan
      refine ⟨by simp [replayed, within], fun q _ => ?_, fun _ => ⟨_, by rw [replayed]⟩, ?_, by simp [replayed], ?_⟩
      · exact before.imp id fun earlier => ⟨oldest, first, earlier⟩
      · intro e given
        obtain rfl : Error.insufficientHistory p ⟨oldest.term, oldest.collection, 0⟩ = e := by
          simpa [replayed] using given
        exact ⟨.inr ⟨_, rfl⟩, fun apply x => Log.perform_replay_failed scan apply x⟩
      · intro engine entries same _
        rw [Engine.logsAfter, logs engine same, replayed]
        rfl
    | @found passed kept within parts old complete =>
      have replayed := Log.replayed_of_found scan
      have same : recordsAfter p (spans.map Span.record) = recordsAfter p (kept.map Span.record) := by
        rw [parts]
        exact recordsAfter_append_of_not_lt old kept
      refine ⟨by simp [replayed, within], by simp [replayed], ?_, by simp [replayed], ?_, ?_⟩
      · rintro ⟨span, member, further, lacks⟩
        exact absurd lacks (complete span member further)
      · intro tail given
        rw [replayed] at given ⊢
        exact ⟨(Except.ok.inj given).symm, same.symm⟩
      · intro engine entries own spells
        rw [same] at spells
        rw [Engine.logsAfter, logs engine own, replayed]
        simp only [Engine.decodeAfter_of_spells spells]
        rfl

/-! ## Histories -/

/-- A log at work over a file tree, or between two lives, and what it was given to keep. -/
structure History where
  log : Mounted Log
  /-- The records of which the last page was written and has survived every crash, those in
      deleted files too, with the positions after their first and last pages. -/
  spans : List Span
  /-- The positions that the log has returned. -/
  given : List Position

namespace History

/-- What can happen to a log. -/
inductive Event where
  | write (record : Bytes)
  | startTerm (term : UInt64)
  /-- A new log over the directory, taken up. -/
  | restart
  /-- The log dies after some pages of a record. -/
  | interrupt (record : Bytes) (pages : Nat)
  /-- The log dies, and the newest file is cut to a length. -/
  | crash (length : Nat)
  /-- Some of the oldest files are deleted, at most all but the newest. -/
  | delete (count : Nat)

def begin (disk : FileTree) (dir : Path) (limit : UInt64) : History := ⟨⟨disk, .fresh dir limit⟩, [], []⟩

/-- The log is gone; what comes next is a new one over the same directory. -/
def die (h : History) : History := { h with log := ⟨h.log.disk, .fresh h.log.item.dir h.log.item.tail.limit⟩ }

/-- An action on the log; the position that it gives is one more that the log has returned. -/
def perform (act : Action (Mounted Log) Position) (h : History) : History :=
  match act.perform h.log with
  | (.ok p, log) => { h with log, given := h.given ++ [p] }
  | (.error _, log) => { h with log }

/-- A record is kept under the position that the log returns for it. -/
def write (record : Bytes) (h : History) : History :=
  match (Log.write record).perform h.log with
  | (.ok p, log) => ⟨log, h.spans ++ [⟨Log.beginning record h.log, p, record⟩], h.given ++ [p]⟩
  | (.error _, log) => { h with log }

/-- Some pages of a record; it is kept if they are all of them. -/
def writePart (record : Bytes) (pages : Nat) (h : History) : History :=
  let part := (Record.split record).take pages
  let log := ((Log.onTail (part.forM fun page => Tail.appendPage page.1 page.2)).perform h.log).2
  if part = Record.split record then
    { h with log, spans := h.spans ++ [⟨Log.beginning record h.log, log.item.position, record⟩] }
  else { h with log }

def cut (length : Nat) (h : History) : History where
  log := { h.log with disk := cutNewest length h.log.item.dir h.log.disk }
  spans := survivingSpans length h.log.item.dir h.log.disk h.spans
  given := h.given

/-- One event. A log that is not taken up writes nothing. -/
def step (h : History) : Event → History
  | .write record => if h.log.item.mounted then h.write record else h
  | .startTerm term => if h.log.item.mounted then h.perform (Log.startTerm term) else h
  | .restart => h.die.perform Log.mount
  | .interrupt record pages => if h.log.item.mounted then (h.writePart record pages).die else h
  | .crash length => (h.cut length).die
  | .delete count => { h with log := { h.log with disk := deleteOldest count h.log.item.dir h.log.disk } }

def run (h : History) (events : List Event) : History := events.foldl step h

/-- The pages that an event may write and the files that it may create. -/
def Event.cost : Event → Nat
  | .write record => (Record.split record).length
  | .startTerm _ => 1
  | .restart => 1
  | .interrupt record _ => (Record.split record).length
  | .crash _ => 0
  | .delete _ => 0

def cost (events : List Event) : Nat := (events.map Event.cost).sum

/-- The invariant of histories: the directory is an archive of the records, and a log that is up
    is their chronicle. -/
structure Sound (h : History) (dir place : Path) (bound : Nat) : Prop where
  sameDir : h.log.item.dir = dir
  archive : Archive h.log.disk dir place bound h.spans h.given
  up : h.log.item.mounted = true → Chronicle h.log place bound h.spans h.given

variable {h : History} {dir place : Path} {bound : Nat}

theorem sound_begin {t : FileTree} (sound : t.Sound) (hosts : t.Hosts dir place Segment.nameWidth)
    (empty : t.children place = []) (limit : UInt64) : Sound (begin t dir limit) dir place 0 :=
  ⟨rfl, .nil sound hosts empty, by simp [begin, Log.fresh]⟩

theorem Sound.die (sound : Sound h dir place bound) : Sound h.die dir place bound :=
  ⟨sound.sameDir, sound.archive, by simp [History.die, Log.fresh]⟩

theorem Sound.mono {bound' : Nat} (sound : Sound h dir place bound) (le : bound ≤ bound') (small : bound' < 2 ^ 64) :
    Sound h dir place bound' :=
  ⟨sound.sameDir, sound.archive.mono le small, fun up => (sound.up up).mono le small⟩

/-- What becomes of a history when its log goes on as another chronicle. -/
private theorem Sound.goes (sound : Sound h dir place bound) {m : Mounted Log} {bound' : Nat} {spans : List Span}
    {given : List Position} (chronicle : Chronicle m place bound' spans given)
    (within : Tail.Within place (Log.tailOf h.log) (Log.tailOf m)) : Sound ⟨m, spans, given⟩ dir place bound' := by
  have sameDir : m.item.dir = dir := within.dir.trans sound.sameDir
  have archive := chronicle.archive
  rw [sameDir] at archive
  exact ⟨sameDir, archive, fun _ => chronicle⟩

theorem Sound.write (sound : Sound h dir place bound) (up : h.log.item.mounted = true) (record : Bytes)
    (small : bound + (Record.split record).length < 2 ^ 64) :
    Sound (h.write record) dir place (bound + (Record.split record).length) := by
  obtain ⟨m, done, chronicle, within⟩ := (sound.up up).write record small
  rw [History.write, done]
  exact sound.goes chronicle within

theorem Sound.startTerm (sound : Sound h dir place bound) (up : h.log.item.mounted = true) (term : UInt64)
    (small : bound + 1 < 2 ^ 64) : Sound (h.perform (Log.startTerm term)) dir place (bound + 1) := by
  by_cases higher : h.log.item.position.term < term
  · obtain ⟨m, done, chronicle, within⟩ := (sound.up up).startTerm higher small
    rw [perform, done]
    exact sound.goes chronicle within
  · obtain ⟨e, refused⟩ := Log.startTerm_low (UInt64.not_lt.mp higher)
    rw [perform, refused]
    exact sound.mono (Nat.le_succ _) small

theorem Sound.mount (sound : Sound h dir place bound) (small : bound + 1 < 2 ^ 64) :
    Sound (h.perform Log.mount) dir place (bound + 1) := by
  have archive := sound.archive
  rw [← sound.sameDir] at archive
  obtain ⟨m, done, chronicle, within⟩ := archive.mount small
  rw [perform, done]
  exact sound.goes chronicle within

theorem Sound.interrupt (sound : Sound h dir place bound) (up : h.log.item.mounted = true) (record : Bytes) (pages : Nat)
    (small : bound + (Record.split record).length < 2 ^ 64) :
    Sound (h.writePart record pages).die dir place (bound + (Record.split record).length) := by
  obtain ⟨m, done, all, part, within⟩ := (sound.up up).interrupt record pages small
  rw [writePart, done]
  by_cases whole : (Record.split record).take pages = Record.split record
  · simp only [whole, ↓reduceIte]
    have archive := (all whole).subset (List.subset_append_left _ _)
    rw [sound.sameDir] at archive
    exact ⟨within.dir.trans sound.sameDir, archive, by simp [History.die, Log.fresh]⟩
  · simp only [whole, ↓reduceIte]
    have archive := part whole
    rw [sound.sameDir] at archive
    exact ⟨within.dir.trans sound.sameDir, archive, by simp [History.die, Log.fresh]⟩

theorem Sound.cut (sound : Sound h dir place bound) (length : Nat) : Sound (h.cut length).die dir place bound := by
  have archive := sound.archive.cut length
  refine ⟨sound.sameDir, ?_, by simp [History.die, Log.fresh]⟩
  rw [← sound.sameDir] at archive ⊢
  exact archive

theorem Sound.delete (sound : Sound h dir place bound) (count : Nat) : Sound (h.step (.delete count)) dir place bound := by
  have archive := sound.archive.deleteOldest count
  refine ⟨sound.sameDir, ?_, fun up => (sound.up up).deleteOldest count⟩
  rw [← sound.sameDir] at archive ⊢
  exact archive

/-- Every event keeps the invariant. -/
theorem Sound.step (sound : Sound h dir place bound) (event : Event) (small : bound + event.cost < 2 ^ 64) :
    Sound (h.step event) dir place (bound + event.cost) := by
  have stays : Sound h dir place (bound + event.cost) := sound.mono (Nat.le_add_right _ _) small
  cases event with
  | write record =>
    by_cases up : h.log.item.mounted = true
    · simpa [History.step, up, Event.cost] using sound.write up record small
    · simpa [History.step, up] using stays
  | startTerm term =>
    by_cases up : h.log.item.mounted = true
    · simpa [History.step, up, Event.cost] using sound.startTerm up term small
    · simpa [History.step, up] using stays
  | restart => exact sound.die.mount small
  | interrupt record pages =>
    by_cases up : h.log.item.mounted = true
    · simpa [History.step, up, Event.cost] using sound.interrupt up record pages small
    · simpa [History.step, up] using stays
  | crash length => exact sound.cut length
  | delete count => exact sound.delete count

/-- Every run keeps the invariant. -/
theorem Sound.run (sound : Sound h dir place bound) (events : List Event) (small : bound + cost events < 2 ^ 64) :
    Sound (h.run events) dir place (bound + cost events) := by
  induction events generalizing h bound with
  | nil => exact sound
  | cons event rest ih =>
    simp only [cost, List.map_cons, List.sum_cons] at small ⊢
    rw [← Nat.add_assoc] at small ⊢
    exact ih (sound.step event (by omega)) small

/-- A restart takes the log up, whatever happened, and returns a position. -/
theorem Sound.restart (sound : Sound h dir place bound) (small : bound + 1 < 2 ^ 64) :
    (h.step .restart).log.item.mounted = true ∧ (h.step .restart).given ≠ [] := by
  have archive := sound.die.archive
  rw [← sound.die.sameDir] at archive
  obtain ⟨m, done, chronicle, within⟩ := archive.mount small
  obtain ⟨_, _, _, _, _, _, follows, _⟩ := chronicle
  have next : h.step .restart = ⟨m, h.die.spans, h.die.given ++ [m.item.position]⟩ := by
    rw [History.step, perform, done]
  rw [next]
  exact ⟨follows.mounted, by simp⟩

/-- Through any run of writes, terms, restarts, crashes and deletions of the oldest files from an
    empty directory, as long as the pages and files can be counted: no record straddles a position
    that the log has returned, and a log that is up serves every position that no record
    straddles. -/
theorem run_serves {t : FileTree} (sound : t.Sound) (hosts : t.Hosts dir place Segment.nameWidth)
    (empty : t.children place = []) (limit : UInt64) (events : List Event) (small : cost events < 2 ^ 64)
    (up : ((begin t dir limit).run events).log.item.mounted = true) :
    ∃ segments, Segment.list ((begin t dir limit).run events).log.disk dir = .ok segments ∧
      (∀ p ∈ ((begin t dir limit).run events).given, Uncut ((begin t dir limit).run events).spans p) ∧
      ∀ p, Uncut ((begin t dir limit).run events).spans p →
        Log.Serves ((begin t dir limit).run events).log segments ((begin t dir limit).run events).spans p := by
  have ends := (sound_begin sound hosts empty limit).run events (by omega)
  obtain ⟨segments, listed, marks, answers⟩ := (ends.up up).scan
  rw [ends.sameDir] at listed
  exact ⟨segments, listed, marks, fun p uncut => (answers p uncut).serves⟩

/-- Records in three files, of which the oldest is deleted; then a crash in the middle of a
    record and a restart. -/
theorem run_serves_after_delete : FileTree.empty.Sound ∧ FileTree.empty.Hosts [""] [] Segment.nameWidth ∧
    FileTree.empty.children [] = [] ∧
    cost [.restart, .write [7], .write [8], .write [9], .delete 1, .interrupt [10] 0, .restart] < 2 ^ 64 ∧
    ((begin FileTree.empty [""] 4096).run
      [.restart, .write [7], .write [8], .write [9], .delete 1, .interrupt [10] 0, .restart]).log.item.mounted = true ∧
    ∃ segments, ∃ p ∈ ((begin FileTree.empty [""] 4096).run
        [.restart, .write [7], .write [8], .write [9], .delete 1, .interrupt [10] 0, .restart]).given,
      Log.Serves ((begin FileTree.empty [""] 4096).run
          [.restart, .write [7], .write [8], .write [9], .delete 1, .interrupt [10] 0, .restart]).log segments
        ((begin FileTree.empty [""] 4096).run
          [.restart, .write [7], .write [8], .write [9], .delete 1, .interrupt [10] 0, .restart]).spans p := by
  have hosts : FileTree.empty.Hosts [""] [] Segment.nameWidth := ⟨rfl, rfl, by decide⟩
  obtain ⟨up, some_given⟩ := ((sound_begin .empty hosts rfl 4096).run
    [.restart, .write [7], .write [8], .write [9], .delete 1, .interrupt [10] 0] (by decide)).restart (by decide)
  obtain ⟨segments, -, marks, serves⟩ := run_serves .empty hosts rfl 4096
    [.restart, .write [7], .write [8], .write [9], .delete 1, .interrupt [10] 0, .restart] (by decide) up
  obtain ⟨p, member⟩ := List.exists_mem_of_ne_nil _ some_given
  exact ⟨.empty, hosts, rfl, by decide, up, segments, p, member, serves p (marks p member)⟩

end History
end Shiplog
