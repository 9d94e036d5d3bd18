import Shiplog.Engine
import Shiplog.Proofs.Journals
import Shiplog.Proofs.Layouts
import Shiplog.Proofs.Stores

/-!
An engine by what its log and its store hold. The store bears the client's entries and
two markers (`Content`), the log the entries logged and their positions; an engine that
is up stands over both (`Engine.Stands`). Each operation of the engine is a change of
these: an entry is logged, takes effect on the client's entries and moves the version
marker (`Stands.logAndApply`), and what a primary sends is logged as far as it is new
(`Stands.replayFrom`).
-/
namespace Shiplog

/-- Where an engine keeps its log and its store; the store does not lie among the files of
    the log. -/
structure Berth where
  dir : Path
  place : Path
  backend : Backend
  apart : backend.Apart place

namespace Entry

/-- What an entry makes of a map. -/
def effect (kv : OrderedMap Bytes Bytes) (entry : Entry) : OrderedMap Bytes Bytes :=
  if entry.deleted then kv.erase entry.key else kv.insert entry.key entry.value

/-- An entry of a client that the log can spell and the backend takes. -/
structure Fits (backend : Backend) (entry : Entry) : Prop where
  counted : entry.Counted
  client : Engine.isReserved entry.key = false
  accepted : backend.Accepts entry.key

def pages (entry : Entry) : Nat := (Record.split (layout.write entry)).length

theorem sorted_effect {kv : OrderedMap Bytes Bytes} (sorted : kv.Sorted) (entry : Entry) : (effect kv entry).Sorted := by
  unfold effect
  split
  · exact sorted.erase _
  · exact sorted.insert _ _

theorem get?_effect (kv : OrderedMap Bytes Bytes) (entry : Entry) (key : Bytes) : (effect kv entry).get? key =
    if key = entry.key then (if entry.deleted then none else some entry.value) else kv.get? key := by
  unfold effect
  cases entry.deleted <;> simp [OrderedMap.get?_erase, OrderedMap.get?_insert]

end Entry

/-- An entry as the log holds it. -/
def LoggedEntry.record (r : LoggedEntry) : Position × Bytes := (r.position, Entry.layout.write r.entry)

/-! ## What a store bears -/

/-- The client's entries and the two markers. -/
structure Content where
  user : OrderedMap Bytes Bytes
  version : Option Position
  replicated : Option Position

namespace Engine

/-- The client's part of a map. -/
def userPart (kv : OrderedMap Bytes Bytes) : OrderedMap Bytes Bytes := kv.filter fun key _ => !isReserved key

theorem sorted_userPart {kv : OrderedMap Bytes Bytes} (sorted : kv.Sorted) : (userPart kv).Sorted := sorted.filter _

theorem get?_userPart {kv : OrderedMap Bytes Bytes} (sorted : kv.Sorted) (key : Bytes) :
    (userPart kv).get? key = if isReserved key then none else kv.get? key := by
  rw [userPart, sorted.get?_filter]
  cases isReserved key <;> cases kv.get? key <;> simp

/-- An entry of a client takes effect on the client's part. -/
theorem userPart_effect {kv : OrderedMap Bytes Bytes} (sorted : kv.Sorted) {entry : Entry}
    (client : isReserved entry.key = false) : userPart (entry.effect kv) = entry.effect (userPart kv) := by
  refine (sorted_userPart (Entry.sorted_effect sorted entry)).ext (Entry.sorted_effect (sorted_userPart sorted) entry)
    fun key => ?_
  rw [get?_userPart (Entry.sorted_effect sorted entry), Entry.get?_effect, Entry.get?_effect, get?_userPart sorted]
  by_cases same : key = entry.key
  · simp [same, client]
  · simp [same]

/-- A bookkeeping key is no part of the client's. -/
theorem userPart_insert {kv : OrderedMap Bytes Bytes} (sorted : kv.Sorted) {key : Bytes} (reserved : isReserved key = true)
    (value : Bytes) : userPart (kv.insert key value) = userPart kv := by
  refine (sorted_userPart (sorted.insert key value)).ext (sorted_userPart sorted) fun k => ?_
  rw [get?_userPart (sorted.insert key value), get?_userPart sorted, OrderedMap.get?_insert]
  by_cases same : k = key
  · simp [same, reserved]
  · simp [same]

theorem isReserved_versionKey : isReserved versionKey = true := by decide

theorem isReserved_replicatedKey : isReserved replicatedKey = true := by decide

end Engine

open Engine (userPart versionKey replicatedKey isReserved)

namespace Backend

/-- Every backend takes the bookkeeping keys. -/
theorem accepts_versionKey (b : Backend) : b.Accepts versionKey := by
  cases b with
  | memory => trivial
  | disk dir place => exact ⟨by decide, by decide⟩

theorem accepts_replicatedKey (b : Backend) : b.Accepts replicatedKey := by
  cases b with
  | memory => trivial
  | disk dir place => exact ⟨by decide, by decide⟩

/-- A store bears the client's entries and the markers. -/
def Bears (b : Backend) (t : FileTree) (store : Store) (c : Content) : Prop :=
  ∃ kv, b.Holds t store kv ∧ userPart kv = c.user ∧ kv.get? versionKey = c.version.map Position.layout.write ∧
    kv.get? replicatedKey = c.replicated.map Position.layout.write

variable {b : Backend} {t t' : FileTree} {store : Store} {c : Content}

theorem Bears.sorted (bears : b.Bears t store c) : c.user.Sorted := by
  obtain ⟨kv, holds, user, -⟩ := bears
  rw [← user]
  exact Engine.sorted_userPart holds.sorted

/-- All keys of a map are a client's, and the backend takes them. -/
def Takes (b : Backend) (kv : OrderedMap Bytes Bytes) : Prop :=
  ∀ key value, kv.get? key = some value → isReserved key = false ∧ b.Accepts key

theorem Bears.takes (bears : b.Bears t store c) : b.Takes c.user := by
  intro key value found
  obtain ⟨kv, holds, user, -⟩ := bears
  rw [← user, Engine.get?_userPart holds.sorted] at found
  cases reserved : isReserved key with
  | true => simp [reserved] at found
  | false =>
    rw [reserved] at found
    exact ⟨rfl, holds.accepts found⟩

theorem Bears.kept (bears : b.Bears t store c) {place : Path} (apart : b.Apart place) (sound : t'.Sound)
    (changes : FileTree.ChangesOnly place t t') : b.Bears t' store c := by
  obtain ⟨kv, holds, rest⟩ := bears
  exact ⟨kv, holds.kept apart sound changes, rest⟩

theorem Bears.entries (bears : b.Bears t store c) :
    ∃ all, Store.entries t store = .ok all ∧ all.filter (fun entry => !isReserved entry.1) = c.user.entries := by
  obtain ⟨kv, holds, user, -⟩ := bears
  exact ⟨kv.entries, holds.entries, congrArg OrderedMap.entries user⟩

theorem Bears.version (bears : b.Bears t store c) :
    Store.get t store versionKey = .ok (c.version.map Position.layout.write) := by
  obtain ⟨kv, holds, -, version, -⟩ := bears
  rw [holds.get b.accepts_versionKey, version]

theorem Bears.replicated (bears : b.Bears t store c) :
    Store.get t store replicatedKey = .ok (c.replicated.map Position.layout.write) := by
  obtain ⟨kv, holds, -, -, replicated⟩ := bears
  rw [holds.get b.accepts_replicatedKey, replicated]

end Backend

/-! ## An engine that is up -/

namespace Engine

variable {α : Type} {berth : Berth} {m : Mounted Engine} {bound : Nat} {logged : List LoggedEntry} {given : List Position}
  {c : Content}

def logOf (m : Mounted Engine) : Mounted Log := ⟨m.disk, m.item.log⟩

def storeOf (m : Mounted Engine) : Mounted Store := ⟨m.disk, m.item.store⟩

theorem perform_onLog (act : Action (Mounted Log) α) (m : Mounted Engine) :
    (onLog act).perform m =
      ((act.perform (logOf m)).1,
        ⟨(act.perform (logOf m)).2.disk, { m.item with log := (act.perform (logOf m)).2.item }⟩) := rfl

/-- What the action on the log gives, the engine gives. -/
theorem perform_onLog_of {act : Action (Mounted Log) α} {answer : Except Error α} {m : Mounted Engine} {m' : Mounted Log}
    (done : act.perform (logOf m) = (answer, m')) :
    (onLog act).perform m = (answer, ⟨m'.disk, { m.item with log := m'.item }⟩) := by
  rw [perform_onLog, done]

theorem perform_onStore (act : Action (Mounted Store) α) (m : Mounted Engine) :
    (onStore act).perform m =
      ((act.perform (storeOf m)).1,
        ⟨(act.perform (storeOf m)).2.disk, { m.item with store := (act.perform (storeOf m)).2.item }⟩) := rfl

/-- An engine that is up, with what its log and its store hold and the positions that its
    log has given out. -/
structure Stands (berth : Berth) (m : Mounted Engine) (bound : Nat) (logged : List LoggedEntry) (given : List Position)
    (c : Content) : Prop where
  journal : Journal (logOf m) berth.place bound (logged.map LoggedEntry.record) given
  sameDir : m.item.log.dir = berth.dir
  bears : berth.backend.Bears m.disk m.item.store c

theorem marker_of_get {t : FileTree} {e : Engine} {key : Bytes} {p : Option Position}
    (found : Store.get t e.store key = .ok (p.map Position.layout.write)) : marker key t e = .ok p := by
  rw [marker, found]
  cases p with
  | none => rfl
  | some p => simp only [Option.map_some, bind, Except.bind, (Position.spells p).parse, pure, Except.pure]

theorem Stands.marked (stands : Stands berth m bound logged given c) :
    marker versionKey m.disk m.item = .ok c.version := marker_of_get stands.bears.version

theorem Stands.version (stands : Stands berth m bound logged given c) :
    version m.disk m.item = .ok (c.version.getD .start) := by
  rw [Engine.version, stands.marked]
  rfl

theorem Stands.replicated (stands : Stands berth m bound logged given c) :
    replicated m.disk m.item = .ok c.replicated := marker_of_get stands.bears.replicated

/-- What an action on the store alone leaves of an engine. -/
theorem Stands.afterStore (stands : Stands berth m bound logged given c) {m' : Mounted Store} {c' : Content}
    (bears : berth.backend.Bears m'.disk m'.item c') (within : berth.backend.Within m.disk m'.disk) :
    Stands berth ⟨m'.disk, { m.item with store := m'.item }⟩ bound logged given c' :=
  ⟨stands.journal.kept (within.sound stands.journal.sound) within.keeps fun name => within.same berth.apart name,
    stands.sameDir, bears⟩

theorem Stands.apply (stands : Stands berth m bound logged given c) {entry : Entry}
    (client : isReserved entry.key = false) (accepted : berth.backend.Accepts entry.key) :
    ∃ m', (apply entry).perform m = (.ok (), m') ∧
      Stands berth m' bound logged given { c with user := entry.effect c.user } ∧ m'.item.log = m.item.log := by
  obtain ⟨kv, holds, user, version, replicated⟩ := stands.bears
  have apartVersion : versionKey ≠ entry.key := by
    rintro same
    rw [← same, isReserved_versionKey] at client
    cases client
  have apartReplicated : replicatedKey ≠ entry.key := by
    rintro same
    rw [← same, isReserved_replicatedKey] at client
    cases client
  have effect : ∃ m', (if entry.deleted then Store.delete entry.key else Store.put entry.key entry.value).perform
      (storeOf m) = (.ok (), m') ∧ berth.backend.Holds m'.disk m'.item (entry.effect kv) ∧
      berth.backend.Within m.disk m'.disk := by
    unfold Entry.effect
    cases entry.deleted with
    | true => exact holds.perform_delete accepted
    | false => exact holds.perform_put accepted entry.value
  obtain ⟨m', done, holds', within⟩ := effect
  refine ⟨⟨m'.disk, { m.item with store := m'.item }⟩, ?_, stands.afterStore ⟨entry.effect kv, holds', ?_, ?_, ?_⟩ within,
    rfl⟩
  · rw [Engine.apply, perform_onStore, done]
  · rw [userPart_effect holds.sorted client, user]
  · rw [Entry.get?_effect, if_neg apartVersion, version]
  · rw [Entry.get?_effect, if_neg apartReplicated, replicated]

theorem Stands.setVersion (stands : Stands berth m bound logged given c) (p : Position) :
    ∃ m', (setMarker versionKey p).perform m = (.ok (), m') ∧
      Stands berth m' bound logged given { c with version := some p } ∧ m'.item.log = m.item.log := by
  obtain ⟨kv, holds, user, version, replicated⟩ := stands.bears
  obtain ⟨m', done, holds', within⟩ := holds.perform_put berth.backend.accepts_versionKey (Position.layout.write p)
  refine ⟨⟨m'.disk, { m.item with store := m'.item }⟩, ?_, stands.afterStore ⟨_, holds', ?_, ?_, ?_⟩ within, rfl⟩
  · rw [setMarker, perform_onStore]
    exact congrArg (fun r => (r.1, (⟨r.2.disk, { m.item with store := r.2.item }⟩ : Mounted Engine))) done
  · rw [userPart_insert holds.sorted isReserved_versionKey, user]
  · rw [OrderedMap.get?_insert, if_pos rfl]
    rfl
  · rw [OrderedMap.get?_insert, if_neg (by decide), replicated]

theorem Stands.setReplicated (stands : Stands berth m bound logged given c) (p : Position) :
    ∃ m', (setMarker replicatedKey p).perform m = (.ok (), m') ∧
      Stands berth m' bound logged given { c with replicated := some p } ∧ m'.item.log = m.item.log := by
  obtain ⟨kv, holds, user, version, replicated⟩ := stands.bears
  obtain ⟨m', done, holds', within⟩ := holds.perform_put berth.backend.accepts_replicatedKey (Position.layout.write p)
  refine ⟨⟨m'.disk, { m.item with store := m'.item }⟩, ?_, stands.afterStore ⟨_, holds', ?_, ?_, ?_⟩ within, rfl⟩
  · rw [setMarker, perform_onStore]
    exact congrArg (fun r => (r.1, (⟨r.2.disk, { m.item with store := r.2.item }⟩ : Mounted Engine))) done
  · rw [userPart_insert holds.sorted isReserved_replicatedKey, user]
  · rw [OrderedMap.get?_insert, if_neg (by decide), version]
  · rw [OrderedMap.get?_insert, if_pos rfl]
    rfl

/-- What an action on the log alone leaves of an engine. -/
theorem Stands.afterLog (stands : Stands berth m bound logged given c) {m' : Mounted Log} {bound' : Nat}
    {logged' : List LoggedEntry} {given' : List Position}
    (journal : Journal m' berth.place bound' (logged'.map LoggedEntry.record) given')
    (within : Tail.Within berth.place (Log.tailOf (logOf m)) (Log.tailOf m')) :
    Stands berth ⟨m'.disk, { m.item with log := m'.item }⟩ bound' logged' given' c :=
  ⟨journal, within.dir.trans stands.sameDir, stands.bears.kept berth.apart journal.sound within.changes⟩

/-- An entry logged: it is in the log, at a new position. -/
theorem Stands.log (stands : Stands berth m bound logged given c) (entry : Entry) (small : bound + entry.pages < 2 ^ 64) :
    ∃ m', (onLog (Log.write (Entry.layout.write entry))).perform m = (.ok m'.item.tail, m') ∧
      Stands berth m' (bound + entry.pages) (logged ++ [⟨m'.item.tail, entry⟩]) (given ++ [m'.item.tail]) c ∧
      m.item.tail < m'.item.tail ∧ m'.item.store = m.item.store := by
  obtain ⟨m', done, journal, less, within⟩ := stands.journal.write (Entry.layout.write entry) small
  refine ⟨⟨m'.disk, { m.item with log := m'.item }⟩, ?_, stands.afterLog ?_ within, less, rfl⟩
  · rw [perform_onLog, done]
    rfl
  · rw [List.map_append]
    exact journal

/-- A change: the entry is logged, takes effect, and its position is the version. -/
theorem Stands.logAndApply (stands : Stands berth m bound logged given c) {entry : Entry}
    (client : isReserved entry.key = false) (accepted : berth.backend.Accepts entry.key)
    (small : bound + entry.pages < 2 ^ 64) :
    ∃ m', (logAndApply entry).perform m = (.ok m'.item.tail, m') ∧
      Stands berth m' (bound + entry.pages) (logged ++ [⟨m'.item.tail, entry⟩]) (given ++ [m'.item.tail])
        { c with user := entry.effect c.user, version := some m'.item.tail } ∧
      m.item.tail < m'.item.tail := by
  obtain ⟨m₁, wrote, stands₁, less, -⟩ := stands.log entry small
  obtain ⟨m₂, applied, stands₂, log₂⟩ := stands₁.apply client accepted
  obtain ⟨m₃, marked, stands₃, log₃⟩ := stands₂.setVersion m₁.item.tail
  have tail : m₃.item.tail = m₁.item.tail := by
    simp only [Engine.tail, log₃, log₂]
  refine ⟨m₃, ?_, ?_, ?_⟩
  · rw [Engine.logAndApply, Action.perform_bind, wrote]
    simp only [Action.perform_bind, applied, marked, Action.perform_pure, tail]
  · rw [tail]
    exact stands₃
  · rwa [tail]

theorem checkKey_client {entry : Entry} (client : isReserved entry.key = false) : checkKey entry.key = .ok () := by
  simp [checkKey, client]

/-- A change that is made is logged, applied and marked. -/
theorem change_eq_ok {entry : Entry} {p : Position} (done : (change entry).perform m = (.ok p, m')) :
    ∃ m₁ m₂, (onLog (Log.write (Entry.layout.write entry))).perform m = (.ok p, m₁) ∧
      (Engine.apply entry).perform m₁ = (.ok (), m₂) ∧ (setMarker versionKey p).perform m₂ = (.ok (), m') := by
  obtain ⟨⟨⟩, m₀, checked, done⟩ := Action.perform_bind_eq_ok.mp done
  obtain rfl : m = m₀ := (Prod.ext_iff.mp checked).2
  obtain ⟨q, m₁, logged, done⟩ := Action.perform_bind_eq_ok.mp done
  obtain ⟨⟨⟩, m₂, applied, done⟩ := Action.perform_bind_eq_ok.mp done
  obtain ⟨⟨⟩, m₃, marked, done⟩ := Action.perform_bind_eq_ok.mp done
  cases done
  exact ⟨m₁, m₂, logged, applied, marked⟩

theorem Stands.change (stands : Stands berth m bound logged given c) {entry : Entry} (fits : entry.Fits berth.backend)
    (small : bound + entry.pages < 2 ^ 64) :
    ∃ m', (change entry).perform m = (.ok m'.item.tail, m') ∧
      Stands berth m' (bound + entry.pages) (logged ++ [⟨m'.item.tail, entry⟩]) (given ++ [m'.item.tail])
        { c with user := entry.effect c.user, version := some m'.item.tail } ∧
      m.item.tail < m'.item.tail := by
  obtain ⟨m', done, rest⟩ := stands.logAndApply fits.client fits.accepted small
  refine ⟨m', ?_, rest⟩
  rw [Engine.change, Action.perform_bind, Action.perform_ofExcept, checkKey_client fits.client]
  exact done

/-- The entries stand in ascending order, after the start and up to the end of the log. -/
theorem Stands.sorted (stands : Stands berth m bound logged given c) :
    (logged.map LoggedEntry.position).Pairwise (· < ·) ∧ ∀ r ∈ logged, .start < r.position ∧ r.position ≤ m.item.tail := by
  obtain ⟨ascending, within⟩ := stands.journal.sorted
  have each := List.pairwise_map.mp ascending
  exact ⟨List.pairwise_map.mpr each, fun r member => within r.record (List.mem_map_of_mem member)⟩

theorem Stands.withTail (stands : Stands berth m bound logged given c) :
    Stands berth m bound logged (given ++ [m.item.tail]) c := ⟨stands.journal.withTail, stands.sameDir, stands.bears⟩

theorem Stands.subset (stands : Stands berth m bound logged given c) {given' : List Position} (sub : given' ⊆ given) :
    Stands berth m bound logged given' c := ⟨stands.journal.subset sub, stands.sameDir, stands.bears⟩

theorem Stands.startTerm (stands : Stands berth m bound logged given c) {term : UInt64}
    (higher : m.item.tail.term < term) (small : bound + 1 < 2 ^ 64) :
    ∃ m', (startTerm term).perform m = (.ok m'.item.tail, m') ∧
      Stands berth m' (bound + 1) logged (given ++ [m'.item.tail]) c ∧ m.item.tail < m'.item.tail := by
  obtain ⟨m', done, journal, less, within⟩ := stands.journal.startTerm higher small
  refine ⟨⟨m'.disk, { m.item with log := m'.item }⟩, ?_, stands.afterLog journal within, less⟩
  rw [Engine.startTerm, perform_onLog, done]
  rfl

/-- A term that is not higher is refused. -/
theorem startTerm_low {term : UInt64} (low : term ≤ m.item.tail.term) :
    ∃ e, (Engine.startTerm term).perform m = (.error e, m) := by
  obtain ⟨e, refused⟩ := Log.startTerm_low (m := logOf m) low
  exact ⟨e, by rw [Engine.startTerm, perform_onLog, refused]; rfl⟩

/-! ## The records after a position -/

def later (p : Position) (records : List LoggedEntry) : List LoggedEntry := records.filter fun r => decide (p < r.position)

theorem later_eq_nil {p : Position} {records : List LoggedEntry} (le : ∀ r ∈ records, r.position ≤ p) :
    later p records = [] := by
  rw [later, List.filter_eq_nil_iff]
  intro r member
  simpa using Position.not_lt.mpr (le r member)

theorem later_append_of_le {p : Position} {early : List LoggedEntry} (le : ∀ r ∈ early, r.position ≤ p)
    (rest : List LoggedEntry) : later p (early ++ rest) = later p rest := by
  rw [later, List.filter_append]
  change later p early ++ later p rest = later p rest
  rw [later_eq_nil le, List.nil_append]

theorem later_eq_self {p : Position} {records : List LoggedEntry} (less : ∀ r ∈ records, p < r.position) :
    later p records = records := by
  rw [later, List.filter_eq_self]
  intro r member
  simpa using less r member

/-- A position between two neighbours divides the records. -/
theorem later_eq_drop {p : Position} {records : List LoggedEntry} {k : Nat} (early : ∀ r ∈ records.take k, r.position ≤ p)
    (late : ∀ r ∈ records.drop k, p < r.position) : later p records = records.drop k := by
  conv_lhs => rw [← List.take_append_drop k records]
  rw [later_append_of_le early, later_eq_self late]

theorem decodeAfter_record (p : Position) {records : List LoggedEntry} (counted : ∀ r ∈ records, r.entry.Counted) :
    decodeAfter p (records.map LoggedEntry.record) = .ok (later p records) := by
  induction records with
  | nil => rfl
  | cons r rest ih =>
    have after := ih fun r' member => counted r' (List.mem_cons_of_mem r member)
    rw [List.map_cons, LoggedEntry.record, decodeAfter, after, (counted r List.mem_cons_self).spells.parse]
    by_cases less : p < r.position
    · rw [if_pos less, later, later, List.filter_cons_of_pos (by simpa using less)]
      rfl
    · rw [if_neg less, later, later, List.filter_cons_of_neg (by simpa using less)]

/-- What the log holds after a position that it has given out. -/
theorem Stands.logsAfter (stands : Stands berth m bound logged given c) (counted : ∀ r ∈ logged, r.entry.Counted)
    {p : Position} (known : p = .start ∨ p ∈ given) (within : p ≤ m.item.tail) :
    logsAfter p m.disk m.item = .ok (later p logged) := by
  obtain ⟨skipped, kept, parts, early, scan⟩ := stands.journal.scan known within
  obtain ⟨old, new, rfl, rfl, rfl⟩ := List.map_eq_append_iff.mp parts
  have whole : Log.scan m.disk m.item.log p = ⟨new.map LoggedEntry.record, none⟩ := scan
  have passed : ∀ r ∈ old, r.position ≤ p := fun r member => early r.record (List.mem_map_of_mem member)
  rw [later_append_of_le passed, Engine.logsAfter, whole,
    decodeAfter_record p fun r member => counted r (List.mem_append_right _ member)]
  rfl

def clients (t : FileTree) (e : Engine) : Except Error (List (Bytes × Bytes)) := do
  return (← entries t e).filter fun entry => !isReserved entry.1

theorem Stands.clients (stands : Stands berth m bound logged given c) : clients m.disk m.item = .ok c.user.entries := by
  obtain ⟨all, read, user⟩ := stands.bears.entries
  rw [Engine.clients, entries, read, ← user]
  rfl

/-- The client's entries are known once they are read. -/
theorem Stands.user_eq (stands : Stands berth m bound logged given c) {user : OrderedMap Bytes Bytes}
    (read : Engine.clients m.disk m.item = .ok user.entries) : c.user = user := by
  rw [stands.clients, Except.ok.injEq] at read
  exact congrArg OrderedMap.mk read

/-- What brings a standby up to date is read in three parts, the version first. -/
theorem syncPayload_eq_ok {now : UInt64} {t : FileTree} {e : Engine} {sync : SyncPayload}
    (made : syncPayload now t e = .ok sync) :
    ∃ p entries logs, version t e = .ok p ∧ Engine.clients t e = .ok entries ∧ Engine.logsAfter p t e = .ok logs ∧
      sync = ⟨⟨p, e.tail.term, now, entries⟩, logs⟩ := by
  rw [syncPayload, snapshot] at made
  cases version : version t e with
  | error flaw => simp [version, bind, Except.bind] at made
  | ok p =>
    cases entries : entries t e with
    | error flaw => simp [version, entries, bind, Except.bind] at made
    | ok all =>
      cases logs : Engine.logsAfter p t e with
      | error flaw => simp [version, entries, logs, bind, Except.bind, pure, Except.pure] at made
      | ok records =>
        simp only [version, entries, logs, bind, Except.bind, pure, Except.pure, Except.ok.injEq] at made
        refine ⟨p, all.filter fun entry => !isReserved entry.1, records, rfl, ?_, logs, made.symm⟩
        rw [Engine.clients, entries]
        rfl

/-! ## What a primary sends -/

/-- Whether a record lies at or below the fence. -/
def isOld (fence : Option Position) (record : LoggedEntry) : Bool := fence.any fun f => decide (record.position ≤ f)

/-- The records that are not passed over; each that is applied moves the fence. -/
def newOf : Option Position → List LoggedEntry → List LoggedEntry
  | _, [] => []
  | fence, record :: rest =>
    if isOld fence record then newOf fence rest else record :: newOf (some record.position) rest

theorem mem_newOf {fence : Option Position} {records : List LoggedEntry} {r : LoggedEntry}
    (member : r ∈ newOf fence records) : r ∈ records := by
  induction records generalizing fence with
  | nil => exact member
  | cons record rest ih =>
    rw [newOf] at member
    split at member
    · exact List.mem_cons_of_mem _ (ih member)
    · rcases List.mem_cons.mp member with rfl | after
      · exact List.mem_cons_self
      · exact List.mem_cons_of_mem _ (ih after)

/-- What some entries make of a map, one after the other. -/
def effects (records : List LoggedEntry) (kv : OrderedMap Bytes Bytes) : OrderedMap Bytes Bytes :=
  records.foldl (fun kv record => record.entry.effect kv) kv

def pages (records : List LoggedEntry) : Nat := (records.map fun record => record.entry.pages).sum

theorem Stands.mono {bound' : Nat} (stands : Stands berth m bound logged given c) (le : bound ≤ bound')
    (small : bound' < 2 ^ 64) : Stands berth m bound' logged given c :=
  ⟨stands.journal.mono le small, stands.sameDir, stands.bears⟩

/-- One record that is new: it is logged, takes effect and becomes the fence. -/
theorem Stands.replayNew (stands : Stands berth m bound logged given c) {record : LoggedEntry}
    (fits : record.entry.Fits berth.backend) (small : bound + record.entry.pages < 2 ^ 64) :
    ∃ m', (do
        Action.ofExcept (checkKey record.entry.key)
        let _ ← Engine.logAndApply record.entry
        setMarker replicatedKey record.position).perform m = (.ok (), m') ∧
      Stands berth m' (bound + record.entry.pages) (logged ++ [⟨m'.item.tail, record.entry⟩]) (given ++ [m'.item.tail])
        ⟨record.entry.effect c.user, some m'.item.tail, some record.position⟩ ∧
      m.item.tail < m'.item.tail := by
  obtain ⟨m₁, done, stands₁, less⟩ := stands.logAndApply fits.client fits.accepted small
  obtain ⟨m₂, marked, stands₂, log₂⟩ := stands₁.setReplicated record.position
  have tail : m₂.item.tail = m₁.item.tail := by simp only [Engine.tail, log₂]
  refine ⟨m₂, ?_, ?_, ?_⟩
  · rw [Action.perform_bind, Action.perform_ofExcept, checkKey_client fits.client]
    simp only [Action.perform_bind, done, marked]
  · rw [tail]
    exact stands₂
  · rwa [tail]

/-- What is new of the records that a primary sent is logged and takes effect in order, and
    the last of it is the fence from then on. -/
theorem Stands.replayFrom (stands : Stands berth m bound logged given c) (records : List LoggedEntry)
    (fits : ∀ record ∈ records, record.entry.Fits berth.backend) (small : bound + pages records < 2 ^ 64) :
    ∃ m' logged' version, (replayFrom c.replicated records).perform m = (.ok (newOf c.replicated records).length, m') ∧
      Stands berth m' (bound + pages records) (logged ++ logged') (given ++ logged'.map LoggedEntry.position)
        ⟨effects (newOf c.replicated records) c.user, version,
          ((newOf c.replicated records).map LoggedEntry.position).getLast?.or c.replicated⟩ ∧
      logged'.map LoggedEntry.entry = (newOf c.replicated records).map LoggedEntry.entry ∧
      (∀ record ∈ logged', m.item.tail < record.position) ∧
      (logged' = [] ∧ m' = m ∧ version = c.version ∨
        version = some m'.item.tail ∧ m'.item.tail ∈ logged'.map LoggedEntry.position) := by
  induction records generalizing m bound logged given c with
  | nil => exact ⟨m, [], c.version, rfl, by simpa [newOf, effects, pages] using stands, rfl, by simp, .inl ⟨rfl, rfl, rfl⟩⟩
  | cons record rest ih =>
    have later := fun r member => fits r (List.mem_cons_of_mem record member)
    have sum : pages (record :: rest) = record.entry.pages + pages rest := rfl
    by_cases old : isOld c.replicated record = true
    · obtain ⟨m', logged', version, done, stands', same, new, moved⟩ := ih stands later (by omega)
      have passed : newOf c.replicated (record :: rest) = newOf c.replicated rest := by rw [newOf, if_pos old]
      rw [passed]
      refine ⟨m', logged', version, ?_, stands'.mono (by omega) small, same, new, moved⟩
      have test : c.replicated.any (fun f => decide (record.position ≤ f)) = true := old
      rw [Engine.replayFrom, if_pos test]
      exact done
    · obtain ⟨m₁, first, stands₁, less⟩ := stands.replayNew (fits record List.mem_cons_self) (by omega)
      obtain ⟨m', logged', version, done, stands', same, new, moved⟩ := ih stands₁ later (by omega)
      have kept : newOf c.replicated (record :: rest) = record :: newOf (some record.position) rest := by
        rw [newOf, if_neg old]
      rw [kept]
      refine ⟨m', ⟨m₁.item.tail, record.entry⟩ :: logged', version, ?_, ?_,
        by rw [List.map_cons, List.map_cons, same], ?_, ?_⟩
      · have test : ¬ c.replicated.any (fun f => decide (record.position ≤ f)) = true := old
        rw [Engine.replayFrom, if_neg test]
        rw [Action.perform_bind, Action.perform_ofExcept, checkKey_client (fits record List.mem_cons_self).client]
        rw [Action.perform_bind, Action.perform_ofExcept, checkKey_client (fits record List.mem_cons_self).client] at first
        obtain ⟨position, m₂, wrote, marked⟩ := Action.perform_bind_eq_ok.mp first
        simp only [Action.perform_bind, wrote, marked, done, Action.perform_pure, List.length_cons]
      · rw [sum, ← Nat.add_assoc, List.map_cons]
        rw [List.append_assoc, List.append_assoc] at stands'
        have fence : ((record :: newOf (some record.position) rest).map LoggedEntry.position).getLast?.or c.replicated =
            ((newOf (some record.position) rest).map LoggedEntry.position).getLast?.or (some record.position) := by
          rw [List.map_cons, List.getLast?_cons]
          cases ((newOf (some record.position) rest).map LoggedEntry.position).getLast? <;> rfl
        rw [fence]
        exact stands'
      · intro r member
        rcases List.mem_cons.mp member with rfl | after
        · exact less
        · exact Position.lt_trans less (new r after)
      · rcases moved with ⟨-, rfl, marked⟩ | ⟨marked, last⟩
        · exact .inr ⟨marked, List.mem_cons_self⟩
        · exact .inr ⟨marked, List.mem_cons_of_mem _ last⟩

theorem Stands.perform_replay (stands : Stands berth m bound logged given c) (records : List LoggedEntry) :
    (replay records).perform m = (Engine.replayFrom c.replicated records).perform m := by
  simp only [replay, Action.perform_bind, Mounted.perform_reading, stands.replicated]

end Engine
end Shiplog
