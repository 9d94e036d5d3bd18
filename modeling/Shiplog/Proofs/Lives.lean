import Shiplog.Proofs.Recoveries

/-!
An engine through its lives. It recovers, changes keys, takes what a primary sends and
enters terms, and it may die at any time, in the middle of an entry too; the newest file
of its log is then cut anywhere, and its store comes back with whatever it has kept
(`Lived`). A store that has come no further behind than its marker says is brought to
where the log ends, and a change that was broken off is then done or was never made
(`Lived.recovery`).
-/
namespace Shiplog
namespace Engine

/-! ## Lives -/

/-- The files of a berth's log are the same in two trees. -/
structure SameLog (berth : Berth) (t t' : FileTree) : Prop where
  sound : t'.Sound
  keeps : FileTree.KeepsDirectories t t'
  files : ∀ name, t'.find? (berth.place ++ [name]) = t.find? (berth.place ++ [name])

/-- A new engine over the files of a log, its store with a content. -/
structure Reopened (berth : Berth) (t : FileTree) (m : Mounted Engine) (c : Content) : Prop where
  fresh : ∃ limit, m.item.log = .fresh berth.dir limit
  same : SameLog berth t m.disk
  bears : berth.backend.Bears m.disk m.item.store c

/-- What a cut of the newest file leaves of some entries. -/
def outliving (length : Nat) (dir : Path) (t : FileTree) (logged : List LoggedEntry) : List LoggedEntry :=
  match newest? t dir with
  | none => logged
  | some segment => logged.filter fun r => outlives segment length r.record

/-- Writes some pages of an entry. -/
def writePages (entry : Entry) (pages : Nat) : Action (Mounted Engine) Unit :=
  onLog (Log.onTail (((Record.split (Entry.layout.write entry)).take pages).forM fun page =>
    Tail.appendPage page.1 page.2))

/-- The lives of an engine: the entries that its log holds with their positions, and every
    position that its log has given out. A store that comes back from a crash has no version,
    or one of those positions. The pages written and the files created are counted. -/
inductive Lived (berth : Berth) : Mounted Engine → Nat → List LoggedEntry → List Position → Prop where
  /-- An empty directory. -/
  | begin {t : FileTree} {m : Mounted Engine} {c : Content} (sound : t.Sound)
      (hosts : t.Hosts berth.dir berth.place Segment.nameWidth) (empty : t.children berth.place = [])
      (reopened : Reopened berth t m c) (unmarked : c.version = none) : Lived berth m 0 [] []
  | recover {m m' bound logged given tail} (lived : Lived berth m bound logged given)
      (done : recover.perform m = (.ok tail, m')) : Lived berth m' (bound + 1) logged (given ++ [tail])
  | change {m m' bound logged given entry p} (lived : Lived berth m bound logged given)
      (up : m.item.log.mounted = true) (fits : entry.Fits berth.backend) (done : (change entry).perform m = (.ok p, m')) :
      Lived berth m' (bound + entry.pages) (logged ++ [⟨p, entry⟩]) (given ++ [p])
  | replay {m m' bound logged given records n new} (lived : Lived berth m bound logged given)
      (up : m.item.log.mounted = true) (fits : ∀ record ∈ records, record.entry.Fits berth.backend)
      (done : (replay records).perform m = (.ok n, m')) (added : logsAfter m.item.tail m'.disk m'.item = .ok new) :
      Lived berth m' (bound + pages records) (logged ++ new) (given ++ new.map LoggedEntry.position)
  | startTerm {m m' bound logged given term p} (lived : Lived berth m bound logged given)
      (up : m.item.log.mounted = true) (done : (startTerm term).perform m = (.ok p, m')) :
      Lived berth m' (bound + 1) logged (given ++ [p])
  /-- The engine dies after some pages of an entry, but not all. -/
  | interrupt {m m₁ m' bound logged given entry pages c} (lived : Lived berth m bound logged given)
      (up : m.item.log.mounted = true) (part : pages < entry.pages)
      (done : (writePages entry pages).perform m = (.ok (), m₁)) (reopened : Reopened berth m₁.disk m' c)
      (known : ∀ p, c.version = some p → p ∈ given) : Lived berth m' (bound + entry.pages) logged given
  /-- The engine dies when an entry is in the log. -/
  | outlived {m m₁ m' bound logged given entry p c} (lived : Lived berth m bound logged given)
      (up : m.item.log.mounted = true) (fits : entry.Fits berth.backend)
      (done : (onLog (Log.write (Entry.layout.write entry))).perform m = (.ok p, m₁))
      (reopened : Reopened berth m₁.disk m' c)
      (known : ∀ p', c.version = some p' → p' ∈ given ++ [p]) :
      Lived berth m' (bound + entry.pages) (logged ++ [⟨p, entry⟩]) (given ++ [p])
  /-- The engine dies, and the newest file of its log is cut to a length. -/
  | crash {m m' bound logged given c} (length : Nat) (lived : Lived berth m bound logged given)
      (reopened : Reopened berth (cutNewest length berth.dir m.disk) m' c)
      (known : ∀ p, c.version = some p → p ∈ given) :
      Lived berth m' bound (outliving length berth.dir m.disk logged) given

/-! ## What holds throughout -/

variable {berth : Berth} {m m' : Mounted Engine} {bound : Nat} {logged : List LoggedEntry} {given : List Position}
  {c : Content}

/-- What holds of an engine at all times. One that is up has marked a version that lies
    within the log and that no entry comes after. -/
structure Lasts (berth : Berth) (m : Mounted Engine) (bound : Nat) (logged : List LoggedEntry) (given : List Position)
    (c : Content) : Prop where
  fits : ∀ r ∈ logged, r.entry.Fits berth.backend
  known : ∀ p, c.version = some p → p ∈ given
  rests : Rests berth m bound logged given c
  stands : m.item.log.mounted = true → Stands berth m bound logged given c
  settled : m.item.log.mounted = true → ∃ p, c.version = some p ∧ p ≤ m.item.tail ∧ ∀ r ∈ logged, r.position ≤ p

theorem Stands.lasts (stands : Stands berth m bound logged given c) (fits : ∀ r ∈ logged, r.entry.Fits berth.backend)
    {p : Position} (version : c.version = some p) (known : p ∈ given) (within : p ≤ m.item.tail)
    (late : ∀ r ∈ logged, r.position ≤ p) : Lasts berth m bound logged given c where
  fits := fits
  known q same := by
    rw [version] at same
    cases same
    exact known
  rests := stands.rests
  stands _ := stands
  settled _ := ⟨p, version, within, late⟩

/-- An engine that dies in the middle of an entry leaves the entries as they are. -/
theorem Stands.interrupt (stands : Stands berth m bound logged given c) {entry : Entry} {pages : Nat}
    (part : pages < entry.pages) (small : bound + entry.pages < 2 ^ 64) :
    ∃ m', (writePages entry pages).perform m = (.ok (), m') ∧ Rests berth m' (bound + entry.pages) logged given c := by
  obtain ⟨m', done, -, dormant, within⟩ := stands.journal.interrupt (Entry.layout.write entry) pages small
  have home : (logOf m).item.dir = berth.dir := stands.sameDir
  have short : (Record.split (Entry.layout.write entry)).take pages ≠ Record.split (Entry.layout.write entry) := by
    intro same
    have length := congrArg List.length same
    rw [List.length_take] at length
    unfold Entry.pages at part
    omega
  have left := dormant short
  rw [home] at left
  refine ⟨⟨m'.disk, { m.item with log := m'.item }⟩, ?_, within.dir.trans home, left,
    stands.bears.kept berth.apart left.sound within.changes⟩
  rw [writePages, perform_onLog, done]

/-- A new engine over a log that holds the records. -/
theorem Reopened.lasts {t : FileTree} (reopened : Reopened berth t m c)
    (dormant : Dormant t berth.dir berth.place bound (logged.map LoggedEntry.record) given)
    (fits : ∀ r ∈ logged, r.entry.Fits berth.backend) (known : ∀ p, c.version = some p → p ∈ given) :
    Lasts berth m bound logged given c := by
  obtain ⟨limit, fresh⟩ := reopened.fresh
  have down : m.item.log.mounted = false := by rw [fresh]; rfl
  refine ⟨fits, known, ⟨by rw [fresh]; rfl, ?_, reopened.bears⟩, by simp [down], by simp [down]⟩
  exact dormant.kept reopened.same.sound reopened.same.keeps reopened.same.files

theorem map_record_outliving (length : Nat) (dir : Path) (t : FileTree) (logged : List LoggedEntry) :
    (outliving length dir t logged).map LoggedEntry.record = survivors length dir t (logged.map LoggedEntry.record) := by
  unfold outliving survivors
  cases newest? t dir with
  | none => rfl
  | some segment =>
    simp only [List.filter_map]
    rfl

theorem mem_outliving {length : Nat} {dir : Path} {t : FileTree} {r : LoggedEntry}
    (member : r ∈ outliving length dir t logged) : r ∈ logged := by
  unfold outliving at member
  split at member
  · exact member
  · exact List.mem_of_mem_filter member

theorem Lasts.fits_append (lasts : Lasts berth m bound logged given c) {record : LoggedEntry}
    (fits : record.entry.Fits berth.backend) : ∀ r ∈ logged ++ [record], r.entry.Fits berth.backend := by
  intro r member
  rcases List.mem_append.mp member with old | new
  · exact lasts.fits r old
  · rw [List.mem_singleton.mp new]
    exact fits

theorem Lasts.recover {tail : Position} (lasts : Lasts berth m bound logged given c) (small : bound + 1 < 2 ^ 64)
    (done : recover.perform m = (.ok tail, m')) : ∃ c', Lasts berth m' (bound + 1) logged (given ++ [tail]) c' := by
  obtain ⟨log, mount, -⟩ := lasts.rests.perform_mount small
  obtain ⟨m'', done', stands, tail', -⟩ :=
    lasts.rests.recover small lasts.fits mount fun p version => .inl (lasts.known p version)
  rw [done] at done'
  obtain ⟨rfl, rfl⟩ : tail = log.item.position ∧ m' = m'' := by simpa using done'
  exact ⟨_, stands.lasts lasts.fits rfl (by simp) (tail' ▸ Position.le_refl _) fun r member =>
    tail' ▸ (stands.sorted.2 r member).2⟩

theorem Lasts.change {entry : Entry} {p : Position} (lasts : Lasts berth m bound logged given c)
    (small : bound + entry.pages < 2 ^ 64) (up : m.item.log.mounted = true) (fits : entry.Fits berth.backend)
    (done : (change entry).perform m = (.ok p, m')) :
    ∃ c', Lasts berth m' (bound + entry.pages) (logged ++ [⟨p, entry⟩]) (given ++ [p]) c' := by
  obtain ⟨m'', done', stands, -⟩ := (lasts.stands up).change fits small
  rw [done] at done'
  obtain ⟨rfl, rfl⟩ : p = m''.item.tail ∧ m' = m'' := by simpa using done'
  exact ⟨_, stands.lasts (lasts.fits_append fits) rfl (by simp) (Position.le_refl _) fun r member =>
    (stands.sorted.2 r member).2⟩

theorem Lasts.replay {records new : List LoggedEntry} {n : Nat} (lasts : Lasts berth m bound logged given c)
    (small : bound + pages records < 2 ^ 64) (up : m.item.log.mounted = true)
    (fits : ∀ record ∈ records, record.entry.Fits berth.backend) (done : (replay records).perform m = (.ok n, m'))
    (added : logsAfter m.item.tail m'.disk m'.item = .ok new) :
    ∃ c', Lasts berth m' (bound + pages records) (logged ++ new) (given ++ new.map LoggedEntry.position) c' := by
  have stands := (lasts.stands up).withTail
  obtain ⟨m'', logged', version, done', stands', same, after, moved⟩ := stands.replayFrom records fits small
  rw [← stands.perform_replay, done] at done'
  obtain rfl : m' = m'' := (Prod.ext_iff.mp done').2
  have fits' : ∀ r ∈ logged ++ logged', r.entry.Fits berth.backend := by
    intro r member
    rcases List.mem_append.mp member with old | new
    · exact lasts.fits r old
    · have entry : r.entry ∈ (newOf c.replicated records).map LoggedEntry.entry := by
        rw [← same]
        exact List.mem_map_of_mem new
      obtain ⟨record, fresh, equal⟩ := List.mem_map.mp entry
      rw [← equal]
      exact fits record (mem_newOf fresh)
  have onward : m.item.tail ≤ m'.item.tail := by
    rcases moved with ⟨-, rfl, -⟩ | ⟨-, last⟩
    · exact Position.le_refl _
    · obtain ⟨r, member, equal⟩ := List.mem_map.mp last
      exact equal ▸ Position.le_of_lt (after r member)
  have exactly : new = logged' := by
    have read := stands'.logsAfter (fun r member => (fits' r member).counted) (p := m.item.tail) (.inr (by simp)) onward
    rw [later_append_of_le fun r member => (stands.sorted.2 r member).2, later_eq_self after, added] at read
    exact Except.ok.inj read
  subst exactly
  obtain ⟨p, marked, inside, covers⟩ := lasts.settled up
  have sub : given ++ new.map LoggedEntry.position ⊆ given ++ [m.item.tail] ++ new.map LoggedEntry.position := by
    intro q member
    simp only [List.mem_append] at member ⊢
    tauto
  rcases moved with ⟨rfl, rfl, rfl⟩ | ⟨rfl, last⟩
  · refine ⟨_, (stands'.subset sub).lasts fits' marked ?_ inside ?_⟩
    · simpa using lasts.known p marked
    · simpa using covers
  · exact ⟨_, (stands'.subset sub).lasts fits' rfl (List.mem_append_right _ last)
      (Position.le_refl _) fun r member => (stands'.sorted.2 r member).2⟩

theorem Lasts.startTerm {term : UInt64} {p : Position} (lasts : Lasts berth m bound logged given c)
    (small : bound + 1 < 2 ^ 64) (up : m.item.log.mounted = true) (done : (startTerm term).perform m = (.ok p, m')) :
    ∃ c', Lasts berth m' (bound + 1) logged (given ++ [p]) c' := by
  have stands := lasts.stands up
  by_cases higher : m.item.tail.term < term
  · obtain ⟨m'', done', stands', less⟩ := stands.startTerm higher small
    rw [done] at done'
    obtain ⟨rfl, rfl⟩ : p = m''.item.tail ∧ m' = m'' := by simpa using done'
    obtain ⟨q, marked, inside, covers⟩ := lasts.settled up
    exact ⟨c, stands'.lasts lasts.fits marked (List.mem_append_left _ (lasts.known q marked))
      (Position.le_trans inside (Position.le_of_lt less)) covers⟩
  · obtain ⟨e, refused⟩ := startTerm_low (UInt64.not_lt.mp higher)
    rw [done] at refused
    simp at refused

/-- Whatever happened to an engine, its log holds the entries. -/
theorem Lived.lasts (lived : Lived berth m bound logged given) (small : bound < 2 ^ 64) :
    ∃ c, Lasts berth m bound logged given c := by
  induction lived with
  | begin sound hosts empty reopened unmarked =>
    exact ⟨_, reopened.lasts (.nil sound hosts empty) (by simp) (by simp [unmarked])⟩
  | recover lived done ih =>
    obtain ⟨c, lasts⟩ := ih (by omega)
    exact lasts.recover small done
  | change lived up fits done ih =>
    obtain ⟨c, lasts⟩ := ih (by omega)
    exact lasts.change small up fits done
  | replay lived up fits done added ih =>
    obtain ⟨c, lasts⟩ := ih (by omega)
    exact lasts.replay small up fits done added
  | startTerm lived up done ih =>
    obtain ⟨c, lasts⟩ := ih (by omega)
    exact lasts.startTerm small up done
  | interrupt lived up part done reopened known ih =>
    obtain ⟨c, lasts⟩ := ih (by omega)
    obtain ⟨m₂, done', rests⟩ := (lasts.stands up).interrupt part small
    rw [done] at done'
    obtain rfl := (Prod.ext_iff.mp done').2
    exact ⟨_, reopened.lasts rests.dormant lasts.fits known⟩
  | @outlived m m₁ m' bound logged given entry p c lived up fits done reopened known ih =>
    obtain ⟨c₀, lasts⟩ := ih (by omega)
    obtain ⟨m₂, done', stands, -⟩ := (lasts.stands up).log entry small
    rw [done] at done'
    obtain ⟨rfl, rfl⟩ : p = m₂.item.tail ∧ m₁ = m₂ := by simpa using done'
    exact ⟨_, reopened.lasts stands.rests.dormant (lasts.fits_append fits) known⟩
  | crash length lived reopened known ih =>
    obtain ⟨c, lasts⟩ := ih small
    have dormant := lasts.rests.dormant.cut length
    rw [← map_record_outliving] at dormant
    exact ⟨_, reopened.lasts dormant (fun r member => lasts.fits r (mem_outliving member)) known⟩

/-! ## Recovery -/

/-- Whether a version divides the first entries from the rest: it is a position that the log
    has given out, at or after the one and before the other; or there is none, and no first
    entry. -/
def Divides (logged : List LoggedEntry) (given : List Position) (k : Nat) (version : Option Position) : Prop :=
  version = none ∧ k = 0 ∨ ∃ p ∈ given, version = some p ∧ (∀ r ∈ logged.take k, r.position ≤ p) ∧
    ∀ r ∈ logged.drop k, p < r.position

/-- What a recovery achieves: it ends at the end of the newest file, which it marks, and
    leaves the entries of the log and some entries of the client; once more, by the same
    engine or a new one, it changes nothing. -/
def RecoversTo (berth : Berth) (m : Mounted Engine) (tail : Position) (logged : List LoggedEntry)
    (user : OrderedMap Bytes Bytes) : Prop :=
  ∃ m', recover.perform m = (.ok tail, m') ∧ endOfNewest? m'.disk berth.dir = some tail ∧
    logsAfter .start m'.disk m'.item = .ok logged ∧ clients m'.disk m'.item = .ok user.entries ∧
    marker versionKey m'.disk m'.item = .ok (some tail) ∧
    ∀ log : Log, log.dir = berth.dir → ∃ t log', recover.perform ⟨m'.disk, ⟨log, m'.item.store⟩⟩ =
      (.ok tail, ⟨t, ⟨log', m'.item.store⟩⟩) ∧ FileTree.Same m'.disk t

/-- How far a change has come when it is broken off. -/
inductive Stage (entry : Entry) where
  /-- Some pages of the entry are in the log, but not all. -/
  | writing (pages : Nat) (part : pages < entry.pages)
  | logged
  | applied
  | marked

/-- Whether all pages of the entry are in the log. -/
def Stage.isLogged {entry : Entry} : Stage entry → Bool
  | .writing _ _ => false
  | .logged => true
  | .applied => true
  | .marked => true

def Stage.breakOff {entry : Entry} : Stage entry → Action (Mounted Engine) Unit
  | .writing pages _ => writePages entry pages
  | .logged => do let _ ← onLog (Log.write (Entry.layout.write entry))
  | .applied => do
    let _ ← onLog (Log.write (Entry.layout.write entry))
    apply entry
  | .marked => do let _ ← change entry

def reopen (limit : UInt64) (m : Mounted Engine) : Mounted Engine :=
  ⟨m.disk, ⟨.fresh m.item.log.dir limit, m.item.store⟩⟩

theorem Rests.reopen (rests : Rests berth m bound logged given c) (limit : UInt64) :
    Rests berth (reopen limit m) bound logged given c := ⟨rests.sameDir, rests.dormant, rests.bears⟩

/-- Recovery applies the entries after the version. -/
theorem Rests.recoversTo (rests : Rests berth m bound logged given c) (small : bound + 2 < 2 ^ 64)
    (fits : ∀ r ∈ logged, r.entry.Fits berth.backend) {tail : Position} {log : Mounted Log}
    (mount : Log.mount.perform (logOf m) = (.ok tail, log))
    (known : ∀ p, c.version = some p → p ∈ given ∨ tail < p) :
    RecoversTo berth m tail logged (effects (later (c.version.getD .start) logged) c.user) := by
  obtain ⟨m', done, stands, same, again⟩ := rests.recover (by omega) fits mount known
  have ends := stands.journal.endOfNewest
  have home : (logOf m').item.dir = berth.dir := stands.sameDir
  have position : (logOf m').item.position = tail := same
  rw [home, position] at ends
  have counted : ∀ r ∈ logged, r.entry.Counted := fun r member => (fits r member).counted
  have all := stands.logsAfter counted (p := .start) (.inl rfl) stands.journal.start_le
  rw [later_eq_self fun r member => (stands.sorted.2 r member).1] at all
  exact ⟨m', done, ends, all, stands.clients, stands.marked, again small⟩

/-- A new engine whose version is one that the log has given out. -/
theorem Rests.reopen_recoversTo (rests : Rests berth m bound logged given c) (small : bound + 2 < 2 ^ 64)
    (fits : ∀ r ∈ logged, r.entry.Fits berth.backend) {p : Position} (version : c.version = some p) (known : p ∈ given)
    (limit : UInt64) :
    ∃ tail, RecoversTo berth (Engine.reopen limit m) tail logged (effects (later p logged) c.user) := by
  have reopened := rests.reopen limit
  obtain ⟨log, mount, -⟩ := reopened.perform_mount (by omega)
  have recovers := reopened.recoversTo small fits mount fun q same => .inl (by
    rw [version] at same
    cases same
    exact known)
  rw [version] at recovers
  exact ⟨_, recovers⟩

/-- A change that is broken off at any stage is done when the engine comes back, if the whole
    entry is in the log, and was never made otherwise. -/
theorem Lasts.breakOff (lasts : Lasts berth m bound logged given c) (up : m.item.log.mounted = true) {entry : Entry}
    (fits : entry.Fits berth.backend) (small : bound + entry.pages + 2 < 2 ^ 64) (stage : Stage entry) :
    ∃ m₁, stage.breakOff.perform m = (.ok (), m₁) ∧ ∀ limit, ∃ tail logged',
      RecoversTo berth (reopen limit m₁) tail logged' (if stage.isLogged then entry.effect c.user else c.user) := by
  have stands := lasts.stands up
  obtain ⟨p, version, inside, covers⟩ := lasts.settled up
  have known := lasts.known p version
  have one_later (q : Position) (less : p < q) : later p (logged ++ [⟨q, entry⟩]) = [⟨q, entry⟩] := by
    rw [later_append_of_le covers, later_eq_self]
    simpa using less
  cases stage with
  | writing pages part =>
    obtain ⟨m₁, done, rests⟩ := stands.interrupt part (by omega)
    refine ⟨m₁, done, fun limit => ?_⟩
    obtain ⟨tail, recovers⟩ := rests.reopen_recoversTo (by omega) lasts.fits version known limit
    rw [later_eq_nil covers] at recovers
    exact ⟨tail, _, recovers⟩
  | logged =>
    obtain ⟨m₁, done, stands₁, less, -⟩ := stands.log entry (by omega)
    refine ⟨m₁, ?_, fun limit => ?_⟩
    · rw [Stage.breakOff, Action.perform_bind, done]
      rfl
    · obtain ⟨tail, recovers⟩ := stands₁.rests.reopen_recoversTo (by omega) (lasts.fits_append fits) version
        (List.mem_append_left _ known) limit
      rw [one_later _ (Position.lt_of_le_of_lt inside less)] at recovers
      exact ⟨tail, _, recovers⟩
  | applied =>
    obtain ⟨m₁, done, stands₁, less, -⟩ := stands.log entry (by omega)
    obtain ⟨m₂, applied, stands₂, -⟩ := stands₁.apply fits.client fits.accepted
    refine ⟨m₂, ?_, fun limit => ?_⟩
    · rw [Stage.breakOff, Action.perform_bind, done]
      exact applied
    · obtain ⟨tail, recovers⟩ := stands₂.rests.reopen_recoversTo (by omega) (lasts.fits_append fits) version
        (List.mem_append_left _ known) limit
      rw [one_later _ (Position.lt_of_le_of_lt inside less)] at recovers
      have twice := effects_twice stands.bears.sorted [⟨m₁.item.tail, entry⟩]
      exact ⟨tail, _, twice ▸ recovers⟩
  | marked =>
    obtain ⟨m₁, done, stands₁, less⟩ := stands.change fits (by omega)
    refine ⟨m₁, ?_, fun limit => ?_⟩
    · rw [Stage.breakOff, Action.perform_bind, done]
      rfl
    · obtain ⟨tail, recovers⟩ := stands₁.rests.reopen_recoversTo (by omega) (lasts.fits_append fits) rfl
        (List.mem_append_right _ (List.mem_singleton_self _)) limit
      rw [later_eq_nil fun r member => (stands₁.sorted.2 r member).2] at recovers
      exact ⟨tail, _, recovers⟩

/-- What an engine promises for the time when it dies. -/
structure Recovers (berth : Berth) (m : Mounted Engine) (bound : Nat) (logged : List LoggedEntry)
    (given : List Position) : Prop where
  /-- The store may come back anywhere between the entry that its version marks and the end
      of the log: recovery leaves the effects of all entries. If its version lies past the
      end of the log, its entries stay as they are. -/
  comesBack : ∀ m' c, Reopened berth m.disk m' c → ∃ tail log, Log.mount.perform (logOf m') = (.ok tail, log) ∧
    (∀ k j, k ≤ j → j ≤ logged.length → c.user = effects (logged.take j) .empty → Divides logged given k c.version →
      RecoversTo berth m' tail logged (effects logged .empty)) ∧
    (∀ p, c.version = some p → tail < p → RecoversTo berth m' tail logged c.user)
  /-- A change that is broken off is wholly done, if its entry is in the log, or wholly
      absent. -/
  brokenOff : m.item.log.mounted = true → ∃ user, clients m.disk m.item = .ok user.entries ∧
    ∀ (entry : Entry) (stage : Stage entry), entry.Fits berth.backend → bound + entry.pages + 2 < 2 ^ 64 →
      ∃ m₁, stage.breakOff.perform m = (.ok (), m₁) ∧ ∀ limit, ∃ tail logged',
        RecoversTo berth (reopen limit m₁) tail logged' (if stage.isLogged then entry.effect user else user)

/-- An engine recovers, whatever its lives were, as long as pages and files can be counted. -/
theorem Lived.recovery (lived : Lived berth m bound logged given) (small : bound + 2 < 2 ^ 64) :
    Recovers berth m bound logged given := by
  obtain ⟨c, lasts⟩ := lived.lasts (by omega)
  constructor
  · intro m' c' reopened
    obtain ⟨limit, fresh⟩ := reopened.fresh
    have rests : Rests berth m' bound logged given c' := by
      refine ⟨by rw [fresh]; rfl, ?_, reopened.bears⟩
      exact lasts.rests.dormant.kept reopened.same.sound reopened.same.keeps reopened.same.files
    obtain ⟨log, mount, journal, -⟩ := rests.perform_mount (by omega)
    have inside : ∀ r ∈ logged, .start < r.position ∧ r.position ≤ log.item.position :=
      fun r member => journal.sorted.2 r.record (List.mem_map_of_mem member)
    refine ⟨log.item.position, log, mount, fun k j le _ user divides => ?_, fun p version past => ?_⟩
    · have known : ∀ p, c'.version = some p → p ∈ given ∨ log.item.position < p := by
        rintro p version
        rcases divides with ⟨none, -⟩ | ⟨q, member, same, -⟩
        · simp [none] at version
        · rw [same] at version
          cases version
          exact .inl member
      have rest : later (c'.version.getD .start) logged = logged.drop k := by
        rcases divides with ⟨none, rfl⟩ | ⟨q, -, same, early, late⟩
        · rw [none]
          exact later_eq_self fun r member => (inside r member).1
        · rw [same]
          exact later_eq_drop early late
      have recovers := rests.recoversTo small lasts.fits mount known
      rw [rest, user, effects_again .empty logged le] at recovers
      exact recovers
    · have recovers := rests.recoversTo small lasts.fits mount fun q same => .inr (by
        rw [version] at same
        cases same
        exact past)
      rw [version] at recovers
      have nothing : later p logged = [] :=
        later_eq_nil fun r member => Position.le_trans (inside r member).2 (Position.le_of_lt past)
      change RecoversTo berth m' _ logged (effects (later p logged) c'.user) at recovers
      rwa [nothing] at recovers
  · intro up
    exact ⟨c.user, (lasts.stands up).clients, fun entry stage fits room => lasts.breakOff up fits room stage⟩

/-- An engine that has put its first value. -/
theorem Lived.recovery_after_put : ∃ m p q,
    (Engine.put [1] [2]).perform (Engine.recover.perform ⟨.empty, ⟨.fresh [""] 8192, .memory ⟨.empty, 0⟩⟩⟩).2 = (.ok q, m) ∧
      Lived ⟨[""], [], .memory, trivial⟩ m 2 [⟨q, .put [1] [2]⟩] [p, q] ∧ 2 + 2 < 2 ^ 64 ∧
      Recovers ⟨[""], [], .memory, trivial⟩ m 2 [⟨q, .put [1] [2]⟩] [p, q] := by
  have hosts : FileTree.empty.Hosts [""] [] Segment.nameWidth := ⟨rfl, rfl, by decide⟩
  have reopened : Reopened ⟨[""], [], .memory, trivial⟩ .empty ⟨.empty, ⟨.fresh [""] 8192, .memory ⟨.empty, 0⟩⟩⟩
      ⟨.empty, none, none⟩ :=
    ⟨⟨8192, rfl⟩, ⟨.empty, FileTree.keepsDirectories_refl _, fun _ => rfl⟩, .empty, ⟨⟨0, rfl⟩, .empty⟩, rfl, rfl, rfl⟩
  have begins := Lived.begin .empty hosts rfl reopened rfl
  obtain ⟨c, lasts⟩ := begins.lasts (by decide)
  obtain ⟨log, mount, -⟩ := lasts.rests.perform_mount (by decide)
  obtain ⟨m₁, done, stands, -⟩ :=
    lasts.rests.recover (by decide) lasts.fits mount fun p version => .inl (lasts.known p version)
  have fits : (Entry.put [1] [2]).Fits .memory := ⟨⟨by decide, by decide⟩, by decide, trivial⟩
  obtain ⟨m₂, done', -⟩ := stands.change fits (by decide)
  have up : m₁.item.log.mounted = true := stands.journal.mounted
  have lived := (begins.recover done).change up fits done'
  refine ⟨m₂, log.item.position, m₂.item.tail, ?_, lived, by decide, lived.recovery (by decide)⟩
  rw [done]
  exact done'

end Engine
end Shiplog
