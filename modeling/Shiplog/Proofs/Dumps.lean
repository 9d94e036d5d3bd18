import Shiplog.Proofs.Writers

/-!
A snapshot that is read while its engine is written to. The version is read first, then
the client's entries, from a directory one file after the other, and between any two of
these reads the writer may go on (`Dump.Step`). So each key is found as it was at a time of
its own (`Writer.Was`), and the entries may be those of no time at all. The records after
the version repair any such mix (`Engine.effects_mixed`): a standby that installs what was
read has the effect of every record that was in the log at last (`Dump.Reached.copies`).
-/
namespace Shiplog

/-- How far the reading of a snapshot is. -/
inductive Reading where
  | begun
  | versioned (position : Position)
  /-- The files of the keys are listed, and some of them are read. -/
  | listed (position : Position) (rest : List (String × Bytes)) (read : List (Bytes × Bytes))
  | dumped (position : Position) (entries : List (Bytes × Bytes))

/-- An engine that is written to while a snapshot of it is read. -/
structure Dump where
  writer : Writer
  reading : Reading

namespace Engine

/-- Entries from any point on, applied over a state that has every key as it was at some
    time from that point on, leave what all of them leave. -/
theorem effects_mixed {kv kept : OrderedMap Bytes Bytes} (sorted : kv.Sorted) (kept_sorted : kept.Sorted)
    (records : List LoggedEntry) {k : Nat}
    (mixed : ∀ key, ∃ j, k ≤ j ∧ (effects (records.take j) kv).get? key = kept.get? key) :
    effects (records.drop k) kept = effects records kv := by
  refine (sorted_effects kept_sorted _).ext (sorted_effects sorted records) fun key => ?_
  obtain ⟨j, le, same⟩ := mixed key
  rw [← effects_again sorted records le]
  rcases get?_effects (records.drop k) key with ⟨value, sets⟩ | leaves
  · rw [sets, sets]
  · rw [leaves, leaves, same]

def clientEntries (all : List (Bytes × Bytes)) : List (Bytes × Bytes) := all.filter fun entry => !isReserved entry.1

/-- An engine that has installed a snapshot goes on like any other. -/
theorem Lasts.install {berth : Berth} {m : Mounted Engine} {bound : Nat} {logged : List LoggedEntry}
    {given : List Position} {c : Content} (lasts : Lasts berth m bound logged given c) (up : m.item.log.mounted = true)
    {snapshot : Snapshot} {kept : OrderedMap Bytes Bytes} (entries : snapshot.entries = kept.entries)
    (sorted : kept.Sorted) (takes : berth.backend.Takes kept) :
    ∃ m' c', (install snapshot).perform m = (.ok (), m') ∧ Lasts berth m' bound logged (given ++ [m.item.tail]) c' ∧
      c'.user = kept := by
  have stands := (lasts.stands up).withTail
  obtain ⟨m', done, stands', log⟩ := stands.install entries sorted takes
  have tail : m'.item.tail = m.item.tail := congrArg Log.position log
  refine ⟨m', _, done, stands'.lasts lasts.fits rfl (by simp) (tail ▸ Position.le_refl _) fun r member => ?_, rfl⟩
  rw [← tail]
  exact (stands'.sorted.2 r member).2

end Engine

open Engine (effects userPart isReserved clientEntries)

/-! ## What a writer has had -/

namespace Writer

variable {o : Origin} {w w' : Writer}

/-- The records that are logged and not yet applied. -/
def pending (w : Writer) : List LoggedEntry := w.written.drop w.applied

/-- A version that was read and the number of records that it covers. -/
structure Caught (o : Origin) (w : Writer) (p : Position) (k : Nat) : Prop where
  given : p ∈ w.given
  within : p ≤ w.engine.item.tail
  covers : Covers o w.written p k
  applied : k ≤ w.applied

/-- At some time since a record was applied, a key had a value, or none. -/
def Was (o : Origin) (w : Writer) (k : Nat) (key : Bytes) (value : Option Bytes) : Prop :=
  ∃ j, k ≤ j ∧ j ≤ w.applied ∧ (effects (w.written.take j) o.user).get? key = value

theorem Caught.grows {p : Position} {k : Nat} (caught : Caught o w p k) (grows : Grows w w') : Caught o w' p k where
  given := grows.given caught.given
  within := Position.le_trans caught.within grows.tail
  covers := grows.covers caught.covers caught.within (Nat.le_trans caught.applied w.applied_le)
  applied := Nat.le_trans caught.applied grows.applied

theorem Was.grows {k : Nat} {key : Bytes} {value : Option Bytes} (was : Was o w k key value) (grows : Grows w w') :
    Was o w' k key value := by
  obtain ⟨j, le, within, same⟩ := was
  refine ⟨j, le, Nat.le_trans within grows.applied, ?_⟩
  rw [grows.take (Nat.le_trans within w.applied_le)]
  exact same

/-- What a key has now, it has at some time. -/
theorem was_now {k : Nat} (le : k ≤ w.applied) (key : Bytes) :
    Was o w k key ((effects (w.written.take w.applied) o.user).get? key) := ⟨w.applied, le, Nat.le_refl _, rfl⟩

/-- The entries in the directory of a store are those of the client and the markers. -/
theorem Sound.disk (sound : Sound o w) {dir : Path} (disk : w.engine.item.store = .disk dir) :
    ∃ place kv, o.berth.backend = .disk dir place ∧ DiskStore.Holds w.engine.disk dir place kv ∧
      userPart kv = effects (w.written.take w.applied) o.user := by
  obtain ⟨v, replicated, stands, -⟩ := sound.stands
  obtain ⟨kv, holds, user, -⟩ := stands.bears
  generalize o.berth.backend = backend at holds
  cases backend with
  | memory =>
    obtain ⟨⟨size, memory⟩, -⟩ := holds
    rw [disk] at memory
    cases memory
  | disk dir' place =>
    obtain ⟨same, holds⟩ := holds
    rw [disk] at same
    cases same
    exact ⟨place, kv, rfl, holds, user⟩

theorem Sound.store (sound : Sound o w) {dir place : Path} (disk : o.berth.backend = .disk dir place) :
    w.engine.item.store = .disk dir := by
  obtain ⟨v, replicated, stands, -⟩ := sound.stands
  obtain ⟨kv, holds, -⟩ := stands.bears
  rw [disk] at holds
  exact holds.1

theorem Sound.memory (sound : Sound o w) {table : MemoryStore} (memory : w.engine.item.store = .memory table) :
    table.table.Sorted ∧ userPart table.table = effects (w.written.take w.applied) o.user := by
  obtain ⟨v, replicated, stands, -⟩ := sound.stands
  obtain ⟨kv, holds, user, -⟩ := stands.bears
  generalize o.berth.backend = backend at holds
  cases backend with
  | memory =>
    obtain ⟨⟨size, same⟩, sorted⟩ := holds
    rw [memory] at same
    cases same
    exact ⟨sorted, user⟩
  | disk dir place =>
    obtain ⟨disk, -⟩ := holds
    rw [memory] at disk
    cases disk

/-- A client's key in the store is what the records have made of it. -/
theorem was_of_userPart {kv : OrderedMap Bytes Bytes} (user : userPart kv = effects (w.written.take w.applied) o.user)
    (sorted : kv.Sorted) {k : Nat} (le : k ≤ w.applied) {key : Bytes} (client : isReserved key = false) :
    Was o w k key (kv.get? key) := by
  have now := was_now (o := o) le key
  rw [← user, Engine.get?_userPart sorted, client] at now
  exact now

end Writer

namespace Dump

/-! ## Steps -/

section
variable (o : Origin) (x : Dump)

/-- The reads of a snapshot. -/
inductive Read : Dump → Prop where
  | version {p} (next : x.reading = .begun) (read : Engine.version x.writer.engine.disk x.writer.engine.item = .ok p) :
      Read { x with reading := .versioned p }
  /-- A store in memory is copied at once. -/
  | copy {p table} (next : x.reading = .versioned p) (memory : x.writer.engine.item.store = .memory table) :
      Read { x with reading := .dumped p (clientEntries table.entries) }
  | list {p dir children} (next : x.reading = .versioned p) (disk : x.writer.engine.item.store = .disk dir)
      (read : x.writer.engine.disk.list dir = .ok children) :
      Read { x with reading := .listed p (DiskStore.keyNames children) [] }
  /-- A file that is gone by now is passed over. -/
  | value {p dir name key rest entries value} (next : x.reading = .listed p ((name, key) :: rest) entries)
      (disk : x.writer.engine.item.store = .disk dir)
      (read : DiskStore.readValue x.writer.engine.disk (dir.child name) = .ok value) :
      Read { x with reading := .listed p rest (entries ++ (value.map (key, ·)).toList) }
  | close {p entries} (next : x.reading = .listed p [] entries) :
      Read { x with reading := .dumped p (clientEntries entries) }

/-- One step, of the writer or of the reading. -/
inductive Step : Dump → Prop where
  | write {writer} (step : x.writer.Step o writer) : Step { x with writer }
  | read {y} (step : Read x y) : Step y

end

/-- What can be come to. At first the engine is up, whatever happened to it before. -/
inductive Reached (o : Origin) : Dump → Prop where
  | begin {engine pages given c} (lasts : Engine.Lasts o.berth engine pages o.before given c)
      (up : engine.item.log.mounted = true) (user : c.user = o.user) :
      Reached o ⟨⟨engine, .idle, [], given, pages⟩, .begun⟩
  | step {x y} (reached : Reached o x) (step : Step o x y) : Reached o y

variable {o : Origin} {x y : Dump}

/-! ## What was read -/

/-- What was read is true: every key that was read, or not listed, had its value, or none, at
    some time since the version was read. -/
def Faithful (o : Origin) (w : Writer) : Reading → Prop
  | .begun => True
  | .versioned p => ∃ k, w.Caught o p k
  | .listed p rest read => ∃ k, w.Caught o p k ∧ (∃ dir place, o.berth.backend = .disk dir place) ∧
      (read.map Prod.fst ++ rest.map Prod.snd).Pairwise (· < ·) ∧
      (∀ pair ∈ rest, DiskStore.Names pair.2 ∧ pair.1 = Hex.ofBytes pair.2) ∧
      (∀ entry ∈ read, isReserved entry.1 = false → w.Was o k entry.1 (some entry.2)) ∧
      ∀ key, isReserved key = false → key ∉ read.map Prod.fst → key ∉ rest.map Prod.snd → w.Was o k key none
  | .dumped p entries => ∃ (k : Nat) (kept : OrderedMap Bytes Bytes), w.Caught o p k ∧ kept.Sorted ∧ entries = kept.entries ∧
      ∀ key, w.Was o k key (kept.get? key)

theorem Faithful.grows {w w' : Writer} {reading : Reading} (faithful : Faithful o w reading) (grows : w.Grows w') :
    Faithful o w' reading := by
  cases reading with
  | begun => trivial
  | versioned p =>
    obtain ⟨k, caught⟩ := faithful
    exact ⟨k, caught.grows grows⟩
  | listed p rest read =>
    obtain ⟨k, caught, disk, ascending, named, present, absent⟩ := faithful
    exact ⟨k, caught.grows grows, disk, ascending, named, fun entry member client => (present entry member client).grows grows,
      fun key client unread unlisted => (absent key client unread unlisted).grows grows⟩
  | dumped p entries =>
    obtain ⟨k, kept, caught, sorted, same, mixed⟩ := faithful
    exact ⟨k, kept, caught.grows grows, sorted, same, fun key => (mixed key).grows grows⟩

/-- What holds throughout. -/
structure Sound (o : Origin) (x : Dump) : Prop where
  writer : x.writer.Sound o
  takes : o.berth.backend.Takes o.user
  faithful : Faithful o x.writer x.reading

/-- A bookkeeping key is none of the client's at any time. -/
theorem Sound.was_reserved (sound : Sound o x) {k : Nat} (le : k ≤ x.writer.applied) {key : Bytes}
    (reserved : isReserved key = true) : x.writer.Was o k key none := by
  have now := Writer.was_now (o := o) le key
  cases found : (effects (x.writer.written.take x.writer.applied) o.user).get? key with
  | none => rwa [found] at now
  | some value =>
    have takes : o.berth.backend.Takes (effects (x.writer.written.take x.writer.applied) o.user) :=
      Engine.takes_effects sound.takes fun r member => sound.writer.fits r (List.mem_of_mem_take member)
    have client := (takes key value found).1
    rw [reserved] at client
    cases client

/-- The client's part of entries that were read is true, if that of each client's key is. -/
theorem Sound.dumped (sound : Sound o x) {p : Position} {k : Nat} (caught : x.writer.Caught o p k)
    {all : OrderedMap Bytes Bytes} (sorted : all.Sorted)
    (mixed : ∀ key, isReserved key = false → x.writer.Was o k key (all.get? key)) :
    Faithful o x.writer (.dumped p (clientEntries all.entries)) := by
  refine ⟨k, userPart all, caught, Engine.sorted_userPart sorted, rfl, fun key => ?_⟩
  rw [Engine.get?_userPart sorted]
  cases reserved : isReserved key with
  | true => exact sound.was_reserved caught.applied reserved
  | false => exact mixed key reserved

/-- The files are listed. -/
theorem Sound.list (sound : Sound o x) {p : Position} {dir : Path} {children : List (String × Inode)}
    (next : x.reading = .versioned p) (disk : x.writer.engine.item.store = .disk dir)
    (read : x.writer.engine.disk.list dir = .ok children) :
    Faithful o x.writer (.listed p (DiskStore.keyNames children) []) := by
  have faithful := sound.faithful
  rw [next] at faithful
  obtain ⟨k, caught⟩ := faithful
  obtain ⟨place, kv, backend, holds, user⟩ := sound.writer.disk disk
  rw [holds.hosts.list, Except.ok.injEq] at read
  subst read
  rw [holds.keyNames]
  have keys : (kv.entries.map fun entry => (Hex.ofBytes entry.1, entry.1)).map Prod.snd = kv.keys := by
    rw [List.map_map]
    rfl
  refine ⟨k, caught, ⟨dir, place, backend⟩, ?_, ?_, by simp, fun key client _ unlisted => ?_⟩
  · rw [keys]
    exact List.pairwise_map.mpr holds.sorted
  · intro pair member
    obtain ⟨⟨key, value⟩, there, rfl⟩ := List.mem_map.mp member
    exact ⟨holds.named key value (holds.sorted.get?_eq_some.mpr there), rfl⟩
  · have was := Writer.was_of_userPart user holds.sorted caught.applied client
    have free : kv.get? key = none := by
      rw [Option.eq_none_iff_forall_ne_some]
      intro value found
      rw [keys] at unlisted
      exact unlisted (List.mem_map_of_mem (holds.sorted.get?_eq_some.mp found))
    rwa [free] at was

/-- The file of a key is read. -/
theorem Sound.value (sound : Sound o x) {p : Position} {dir : Path} {name : String} {key : Bytes}
    {rest : List (String × Bytes)} {entries : List (Bytes × Bytes)} {value : Option Bytes}
    (next : x.reading = .listed p ((name, key) :: rest) entries) (disk : x.writer.engine.item.store = .disk dir)
    (read : DiskStore.readValue x.writer.engine.disk (dir.child name) = .ok value) :
    Faithful o x.writer (.listed p rest (entries ++ (value.map (key, ·)).toList)) := by
  have faithful := sound.faithful
  rw [next] at faithful
  obtain ⟨k, caught, backend, ascending, named, present, absent⟩ := faithful
  obtain ⟨place, kv, -, holds, user⟩ := sound.writer.disk disk
  obtain ⟨names, spelt⟩ := named (name, key) List.mem_cons_self
  simp only at names spelt
  rw [spelt, holds.readValue names, Except.ok.injEq] at read
  subst read
  have was (client : isReserved key = false) := Writer.was_of_userPart user holds.sorted caught.applied client
  have keys : (entries ++ ((kv.get? key).map (key, ·)).toList).map Prod.fst =
      entries.map Prod.fst ++ (kv.get? key).toList.map fun _ => key := by
    cases kv.get? key <;> simp
  refine ⟨k, caught, backend, ?_, fun pair member => named pair (List.mem_cons_of_mem _ member), ?_, ?_⟩
  · rw [keys, List.append_assoc]
    refine ascending.sublist (List.Sublist.append_left ?_ _)
    cases kv.get? key <;> simp
  · intro entry member client
    rcases List.mem_append.mp member with old | new
    · exact present entry old client
    · obtain ⟨v, found, rfl⟩ : ∃ v, kv.get? key = some v ∧ (key, v) = entry := by simpa using new
      have there := was client
      rwa [found] at there
  · intro key' client unread unlisted
    rw [keys, List.mem_append, not_or] at unread
    by_cases same : key' = key
    · subst same
      cases found : kv.get? key' with
      | none =>
        have there := was client
        rwa [found] at there
      | some v => simp [found] at unread
    · exact absent key' client unread.1 (by simpa [same] using unlisted)

theorem Sound.close (sound : Sound o x) {p : Position} {entries : List (Bytes × Bytes)}
    (next : x.reading = .listed p [] entries) : Faithful o x.writer (.dumped p (clientEntries entries)) := by
  have faithful := sound.faithful
  rw [next] at faithful
  obtain ⟨k, caught, -, ascending, -, present, absent⟩ := faithful
  rw [List.map_nil, List.append_nil] at ascending
  have sorted : OrderedMap.Sorted ⟨entries⟩ := List.pairwise_map.mp ascending
  refine sound.dumped caught sorted fun key client => ?_
  cases found : (⟨entries⟩ : OrderedMap Bytes Bytes).get? key with
  | some value => exact present (key, value) (sorted.get?_eq_some.mp found) client
  | none =>
    refine absent key client (fun member => ?_) (by simp)
    obtain ⟨⟨key', value⟩, there, same⟩ := List.mem_map.mp member
    simp only at same
    subst same
    rw [sorted.get?_eq_some.mpr there] at found
    cases found

theorem Sound.read (sound : Sound o x) (step : Read x y) : Sound o y := by
  cases step with
  | version next read =>
    obtain ⟨v, replicated, stands, known, within, covers⟩ := sound.writer.stands
    rw [stands.version] at read
    cases read
    exact ⟨sound.writer, sound.takes, x.writer.marked, known, within, covers, x.writer.marked_le_applied⟩
  | copy next memory =>
    have faithful := sound.faithful
    rw [next] at faithful
    obtain ⟨k, caught⟩ := faithful
    obtain ⟨sorted, user⟩ := sound.writer.memory memory
    exact ⟨sound.writer, sound.takes, sound.dumped caught sorted fun key client =>
      Writer.was_of_userPart user sorted caught.applied client⟩
  | list next disk read => exact ⟨sound.writer, sound.takes, sound.list next disk read⟩
  | value next disk read => exact ⟨sound.writer, sound.takes, sound.value next disk read⟩
  | close next => exact ⟨sound.writer, sound.takes, sound.close next⟩

theorem Sound.step (sound : Sound o x) (step : Step o x y) (small : y.writer.pages < 2 ^ 64) : Sound o y := by
  cases step with
  | write step =>
    obtain ⟨writer, grows⟩ := sound.writer.step step small
    exact ⟨writer, sound.takes, sound.faithful.grows grows⟩
  | read step => exact sound.read step

theorem Step.pages_le (step : Step o x y) : x.writer.pages ≤ y.writer.pages := by
  cases step with
  | write step =>
    cases step with
    | log => exact Nat.le_add_right _ _
    | _ => exact Nat.le_refl _
  | read step => cases step <;> exact Nat.le_refl _

theorem Reached.sound (reached : Reached o x) (small : x.writer.pages < 2 ^ 64) : Sound o x := by
  induction reached with
  | @begin engine pages given c lasts up user =>
    obtain ⟨v, version, within, covers⟩ := lasts.settled up
    have stands := lasts.stands up
    have same : c = ⟨o.user, some v, c.replicated⟩ := by rw [← user, ← version]
    refine ⟨?_, user ▸ stands.bears.takes, trivial⟩
    constructor
    case sorted => exact user ▸ stands.bears.sorted
    case counted => exact fun r member => (lasts.fits r member).counted
    case last => simp [Writing.record?]
    case stands =>
      refine ⟨v, c.replicated, ?_, lasts.known v version, within, by simpa using covers, by simp⟩
      rw [List.append_nil]
      exact same ▸ stands
    all_goals simp
  | step reached step ih => exact (ih (Nat.lt_of_le_of_lt step.pages_le small)).step step small

/-- The files listed are read one after the other. -/
theorem values_run {p : Position} {dir : Path} {pairs : List (String × Bytes)} {entries found : List (Bytes × Bytes)}
    (next : x.reading = .listed p pairs entries) (disk : x.writer.engine.item.store = .disk dir)
    (read : DiskStore.valuesOf x.writer.engine.disk dir pairs = .ok found) :
    ∃ y, Relation.ReflTransGen Read x y ∧ y.writer = x.writer ∧ y.reading = .listed p [] (entries ++ found) := by
  induction pairs generalizing x entries found with
  | nil =>
    cases read
    exact ⟨x, .refl, rfl, by rw [next, List.append_nil]⟩
  | cons pair rest ih =>
    obtain ⟨name, key⟩ := pair
    rw [DiskStore.valuesOf] at read
    cases value : DiskStore.readValue x.writer.engine.disk (dir.child name) with
    | error flaw => simp [value, bind, Except.bind] at read
    | ok value? =>
      have first := Read.value next disk value
      cases later : DiskStore.valuesOf x.writer.engine.disk dir rest with
      | error flaw => cases value? <;> simp [value, later, bind, Except.bind] at read
      | ok found' =>
        have all : found = (value?.map (key, ·)).toList ++ found' := by
          cases value? with
          | none => simpa [value, later, bind, Except.bind] using read.symm
          | some v => simpa [value, later, bind, Except.bind, pure, Except.pure] using read.symm
        obtain ⟨y, reads, writer, reading⟩ := ih
          (x := { x with reading := .listed p rest (entries ++ (value?.map (key, ·)).toList) }) rfl disk later
        refine ⟨y, .head first reads, writer, ?_⟩
        rw [reading, all, List.append_assoc]

/-- What the engine sends to a standby is read in these steps, with nothing written meanwhile. -/
theorem payload_runs {now : UInt64} {payload : Bytes} {m : Mounted Engine} (next : x.reading = .begun)
    (done : (Engine.payload now).perform x.writer.engine = (.ok payload, m)) :
    ∃ y p entries logs, Relation.ReflTransGen Read x y ∧ y.writer = x.writer ∧ y.reading = .dumped p entries ∧
      Engine.logsAfter p x.writer.engine.disk x.writer.engine.item = .ok logs ∧
      payload = SyncPayload.layout.write ⟨⟨p, x.writer.engine.item.tail.term, now, entries⟩, logs⟩ := by
  rw [Engine.payload, Action.perform_bind, Mounted.perform_reading] at done
  cases made : Engine.syncPayload now x.writer.engine.disk x.writer.engine.item with
  | error e => simp [made] at done
  | ok sync =>
    simp only [made, Action.perform_pure, Prod.mk.injEq, Except.ok.injEq] at done
    obtain ⟨rfl, -⟩ := done
    obtain ⟨p, entries, logs, version, clients, after, rfl⟩ := Engine.syncPayload_eq_ok made
    have toVersion := Relation.ReflTransGen.single (Read.version next version)
    rw [Engine.clients] at clients
    cases all : Engine.entries x.writer.engine.disk x.writer.engine.item with
    | error flaw => simp [all, bind, Except.bind] at clients
    | ok found =>
      obtain rfl : clientEntries found = entries := by
        simpa [all, clientEntries, bind, Except.bind, pure, Except.pure] using clients
      cases store : x.writer.engine.item.store with
      | memory table =>
        rw [Engine.entries, store] at all
        cases all
        exact ⟨_, p, _, logs, toVersion.tail (.copy rfl store), rfl, rfl, after, rfl⟩
      | disk dir =>
        rw [Engine.entries, store, Store.entries, DiskStore.entries] at all
        cases list : x.writer.engine.disk.list dir with
        | error fault => simp [list, bind, Except.bind, Except.mapError] at all
        | ok children =>
          have toList := toVersion.tail (.list rfl store list)
          simp only [list, Except.mapError, bind, Except.bind] at all
          obtain ⟨y, reads, writer, reading⟩ :=
            values_run (x := { x with reading := .listed p (DiskStore.keyNames children) [] }) rfl store all
          exact ⟨_, p, _, logs, (toList.trans reads).tail (.close reading), writer, rfl, after, rfl⟩

/-! ## The copy -/

/-- The reading goes on until the entries are read. -/
theorem Sound.goes_on (sound : Sound o x) (unread : ∀ p entries, x.reading ≠ .dumped p entries) : ∃ y, Read x y := by
  obtain ⟨v, replicated, stands, -⟩ := sound.writer.stands
  have faithful := sound.faithful
  cases next : x.reading with
  | begun => exact ⟨_, .version next stands.version⟩
  | versioned p =>
    cases store : x.writer.engine.item.store with
    | memory table => exact ⟨_, .copy next store⟩
    | disk dir =>
      obtain ⟨place, kv, -, holds, -⟩ := sound.writer.disk store
      exact ⟨_, .list next store holds.hosts.list⟩
  | listed p rest entries =>
    cases rest with
    | nil => exact ⟨_, .close next⟩
    | cons pair rest =>
      rw [next] at faithful
      obtain ⟨k, -, ⟨dir, place, backend⟩, -, named, -⟩ := faithful
      obtain ⟨names, spelt⟩ := named pair List.mem_cons_self
      have store := sound.writer.store backend
      obtain ⟨place, kv, -, holds, -⟩ := sound.writer.disk store
      have read := holds.readValue names
      rw [← spelt] at read
      exact ⟨_, .value next store read⟩
  | dumped p entries => exact absurd next (unread p entries)

/-- Whatever a standby holds, it installs what it is sent; then it has certain entries of the
    client, and a fence that none of some records lies past. -/
def Installs (away : Berth) (sync : SyncPayload) (user : OrderedMap Bytes Bytes) (records : List LoggedEntry) : Prop :=
  ∀ m bound logged given c, Engine.Stands away m bound logged given c → bound + Engine.pages sync.logs < 2 ^ 64 →
    ∃ m' fence, (Engine.installPayload (SyncPayload.layout.write sync)).perform m = (.ok (), m') ∧
      Engine.clients m'.disk m'.item = .ok user.entries ∧
      Engine.replicated m'.disk m'.item = .ok (some fence) ∧ ∀ r ∈ records, r.position ≤ fence

/-- The entries read and the records after the version make what all records make. -/
theorem Sound.installs (sound : Sound o x) {p : Position} {entries : List (Bytes × Bytes)}
    (dumped : x.reading = .dumped p entries) {away : Berth} (takes : away.backend.Takes o.user)
    (accepts : ∀ r ∈ x.writer.written, away.backend.Accepts r.entry.key) :
    ∃ logs, Engine.logsAfter p x.writer.engine.disk x.writer.engine.item = .ok logs ∧
      ∀ term now, (SyncPayload.layout.write ⟨⟨p, term, now, entries⟩, logs⟩).length < 2 ^ 64 →
        Installs away ⟨⟨p, term, now, entries⟩, logs⟩ (effects x.writer.written o.user) (o.before ++ x.writer.written) := by
  have faithful := sound.faithful
  rw [dumped] at faithful
  obtain ⟨k, kept, caught, sorted, rfl, mixed⟩ := faithful
  obtain ⟨v, replicated, stands, -⟩ := sound.writer.stands
  have logs : Engine.later p (o.before ++ x.writer.written) = x.writer.written.drop k := by
    have old : ∀ r ∈ o.before, r.position ≤ p := fun r member => caught.covers.1 r (List.mem_append_left _ member)
    have early : ∀ r ∈ x.writer.written.take k, r.position ≤ p :=
      fun r member => caught.covers.1 r (List.mem_append_right _ member)
    rw [Engine.later_append_of_le old, Engine.later_eq_drop early caught.covers.2]
  have after := stands.logsAfter sound.writer.all_counted (.inr caught.given) caught.within
  rw [logs] at after
  refine ⟨_, after, ?_⟩
  intro term now short m bound logged given c standby small
  have fits : ∀ r ∈ x.writer.written, r.entry.Fits away.backend := fun r member =>
    ⟨(sound.writer.fits r member).counted, (sound.writer.fits r member).client, accepts r member⟩
  have kept_takes : away.backend.Takes kept := by
    intro key value found
    obtain ⟨j, -, -, same⟩ := mixed key
    rw [found] at same
    exact Engine.takes_effects takes (fun r member => fits r (List.mem_of_mem_take member)) key value same
  have rising : ((x.writer.written.drop k).map LoggedEntry.position).Pairwise (· < ·) := by
    have ascending := List.pairwise_map.mp sound.writer.ascending.1
    rw [List.pairwise_append] at ascending
    exact List.pairwise_map.mpr (ascending.2.1.sublist (List.drop_sublist _ _))
  obtain ⟨m', logged', given', version, installed, stands'⟩ := standby.installPayload
    (SyncPayload.counted_of_length short).spells.parse rfl sorted kept_takes
    (fun r member => fits r (List.mem_of_mem_drop member)) caught.covers.2 rising small
  have repaired : effects (x.writer.written.drop k) kept = effects x.writer.written o.user :=
    Engine.effects_mixed sound.writer.sorted sorted _ fun key => by
      obtain ⟨j, le, -, same⟩ := mixed key
      exact ⟨j, le, same⟩
  obtain ⟨fence, last, -, covers⟩ := sound.writer.last_covers caught.covers caught.within
    (Nat.le_trans caught.applied x.writer.applied_le) (Nat.le_refl _)
  have all := covers.1
  rw [List.take_length] at last all
  refine ⟨m', fence, installed, ?_, ?_, all⟩
  · rw [← repaired]
    exact stands'.clients
  · rw [← last]
    exact stands'.replicated

/-- However the writer goes on while a snapshot is read, every read succeeds, and what was read
    brings any standby to the entries of the client with every record of the log applied, and
    its fence past none of these records. -/
theorem Reached.copies (reached : Reached o x) (small : x.writer.pages < 2 ^ 64) {away : Berth}
    (takes : away.backend.Takes o.user) (accepts : ∀ r ∈ x.writer.written, away.backend.Accepts r.entry.key) :
    ((∀ p entries, x.reading ≠ .dumped p entries) → ∃ y, Read x y) ∧
    ∀ p entries, x.reading = .dumped p entries → ∃ logs kv records,
      Engine.logsAfter p x.writer.engine.disk x.writer.engine.item = .ok logs ∧
      Engine.clients x.writer.engine.disk x.writer.engine.item = .ok kv.entries ∧
      Engine.logsAfter .start x.writer.engine.disk x.writer.engine.item = .ok records ∧
      ∀ term now, (SyncPayload.layout.write ⟨⟨p, term, now, entries⟩, logs⟩).length < 2 ^ 64 →
        Installs away ⟨⟨p, term, now, entries⟩, logs⟩ (effects x.writer.pending kv) records := by
  have sound := reached.sound small
  refine ⟨sound.goes_on, fun p entries dumped => ?_⟩
  obtain ⟨logs, after, installs⟩ := sound.installs dumped takes accepts
  obtain ⟨v, replicated, stands, -⟩ := sound.writer.stands
  have records := stands.logsAfter sound.writer.all_counted (.inl rfl) stands.journal.start_le
  rw [Engine.later_eq_self fun r member => (sound.writer.ascending.2 r member).1] at records
  have pending : effects x.writer.pending (effects (x.writer.written.take x.writer.applied) o.user) =
      effects x.writer.written o.user := by
    rw [Writer.pending, ← Engine.effects_append, List.take_append_drop]
  refine ⟨logs, _, _, after, stands.clients, records, ?_⟩
  rw [pending]
  exact installs

/-- A value is put between the reading of the version and that of the entries, and is not
    applied yet when the records are read. -/
theorem Reached.copies_midway : ∃ o x p entries logs records,
    Reached o x ∧ x.writer.pages < 2 ^ 64 ∧ Backend.memory.Takes o.user ∧
    (∀ r ∈ x.writer.written, Backend.memory.Accepts r.entry.key) ∧ x.reading = .dumped p entries ∧
    x.writer.pending.map LoggedEntry.entry = [.put [1] [2]] ∧
    Engine.clients x.writer.engine.disk x.writer.engine.item = .ok [] ∧
    Installs ⟨[""], [], .memory, trivial⟩ ⟨⟨p, 0, 0, entries⟩, logs⟩ ⟨[([1], [2])]⟩ records := by
  let berth : Berth := ⟨[""], [], .memory, trivial⟩
  obtain ⟨m, p, stands, tail⟩ := Engine.exists_stands
  have fits : (Entry.put [1] [2]).Fits .memory := ⟨⟨by decide, by decide⟩, by decide, trivial⟩
  have lasts := stands.lasts (by simp) rfl List.mem_cons_self (tail ▸ Position.le_refl _) (by simp)
  have begun : Reached ⟨berth, [], .empty⟩ ⟨⟨m, .idle, [], [p], 1⟩, .begun⟩ := .begin lasts stands.journal.mounted rfl
  have versioned := begun.step (.read (.version rfl stands.version))
  obtain ⟨m₁, wrote, stands₁, less, -⟩ := stands.log (.put [1] [2]) (by decide)
  have logged := versioned.step (.write (.log rfl fits wrote))
  obtain ⟨kv, ⟨⟨size, store⟩, -⟩, user, -⟩ := stands₁.bears
  have dumped := logged.step (.read (.copy rfl store))
  have empty : clientEntries kv.entries = [] := congrArg OrderedMap.entries user
  change Reached _ ⟨_, .dumped p (clientEntries kv.entries)⟩ at dumped
  rw [empty] at dumped
  have small : 1 + (Entry.put [1] [2]).pages < 2 ^ 64 := by decide
  have takes : berth.backend.Takes (OrderedMap.empty : OrderedMap Bytes Bytes) := by simp [berth, Backend.Takes]
  have accepts : ∀ r ∈ ([⟨m₁.item.tail, .put [1] [2]⟩] : List LoggedEntry), berth.backend.Accepts r.entry.key := by
    simp [berth, Backend.Accepts]
  obtain ⟨-, copies⟩ := dumped.copies small takes accepts
  obtain ⟨logs, kv', records, after, clients, -, installs⟩ := copies p [] rfl
  have counted : ∀ r ∈ ([⟨m₁.item.tail, .put [1] [2]⟩] : List LoggedEntry), r.entry.Counted := by
    intro r member
    rw [List.mem_singleton.mp member]
    exact fits.counted
  have within : p ≤ m₁.item.tail := tail ▸ Position.le_of_lt less
  have read := stands₁.logsAfter counted (.inr List.mem_cons_self) within
  have new : Engine.later p [⟨m₁.item.tail, .put [1] [2]⟩] = [⟨m₁.item.tail, .put [1] [2]⟩] :=
    Engine.later_eq_self (by simpa using tail ▸ less)
  obtain rfl : [⟨m₁.item.tail, .put [1] [2]⟩] = logs := by
    rw [List.nil_append, new] at read
    rw [read] at after
    simpa using after
  have user' : kv'.entries = [] := by
    rw [stands₁.clients, Except.ok.injEq] at clients
    exact clients.symm
  obtain rfl : kv' = .empty := congrArg OrderedMap.mk user'
  have short : (SyncPayload.layout.write ⟨⟨p, 0, 0, []⟩, [⟨m₁.item.tail, .put [1] [2]⟩]⟩).length < 2 ^ 64 := by
    simp only [SyncPayload.layout, Snapshot.layout, LoggedEntry.layout, Layout.imap, Layout.both, Layout.list,
      List.flatMap_cons, List.flatMap_nil, List.length_append, List.length_cons, List.length_nil,
      Position.length_write, Entry.length_write]
    decide
  exact ⟨_, _, p, [], _, records, dumped, small, takes, by simp [Backend.Accepts], rfl, rfl, stands₁.clients,
    installs 0 0 short⟩

end Dump
end Shiplog
