import Shiplog.Proofs.Lives

/-!
Changes that fail. A bookkeeping key is refused before anything is done, so such a change
leaves no trace. A key that no file can be named by is refused by the store, when its entry
is in the log already: the entry stays there, and the engine does not come back, since
recovery applies the entry and meets the same refusal (`Lived.change_failed`).
-/
namespace Shiplog

namespace DiskStore

variable {key : Bytes}

/-- What is said of a key that no file can be named by. -/
def refusal (key : Bytes) : Error := .storage s!"key length {key.length} outside 1..={maxKeyLength}"

theorem keyPath_refused (dir : Path) (unnamed : ¬ Names key) : keyPath dir key = .error (refusal key) := by
  have outside : key = [] ∨ maxKeyLength < key.length := by
    by_contra inside
    obtain ⟨ne, short⟩ := not_or.mp inside
    exact unnamed ⟨ne, Nat.le_of_not_lt short⟩
  rw [keyPath, if_pos outside]
  rfl

end DiskStore

/-- A store that does not take a key changes nothing. -/
theorem Backend.Holds.perform_refused {b : Backend} {t : FileTree} {store : Store} {m : OrderedMap Bytes Bytes}
    {entry : Entry} (holds : b.Holds t store m) (refused : ¬ b.Accepts entry.key) :
    (if entry.deleted then Store.delete entry.key else Store.put entry.key entry.value).perform ⟨t, store⟩ =
      (.error (DiskStore.refusal entry.key), ⟨t, store⟩) := by
  cases b with
  | memory => exact absurd trivial refused
  | disk dir place =>
    obtain ⟨rfl, -⟩ := holds
    have path := DiskStore.keyPath_refused dir (show ¬ DiskStore.Names entry.key from refused)
    cases entry.deleted with
    | true => simp [Store.delete, Action.perform_bind, Store.onDisk, DiskStore.delete, path]
    | false => simp [Store.put, Action.perform_bind, Store.onDisk, DiskStore.put, path]

namespace Engine

variable {berth : Berth} {m m' : Mounted Engine} {bound : Nat} {logged : List LoggedEntry} {given : List Position}
  {c : Content} {entry : Entry}

/-! ## Entries that the store refuses -/

theorem Stands.apply_refused (stands : Stands berth m bound logged given c) (refused : ¬ berth.backend.Accepts entry.key) :
    (Engine.apply entry).perform m = (.error (DiskStore.refusal entry.key), m) := by
  obtain ⟨kv, holds, -⟩ := stands.bears
  have done := holds.perform_refused refused
  rw [Engine.apply, perform_onStore]
  exact congrArg (fun r => (r.1, (⟨r.2.disk, { m.item with store := r.2.item }⟩ : Mounted Engine))) done

/-- A change that the store refuses: its entry is in the log, and nothing else has changed. -/
theorem Stands.change_refused (stands : Stands berth m bound logged given c) (client : isReserved entry.key = false)
    (refused : ¬ berth.backend.Accepts entry.key) (small : bound + entry.pages < 2 ^ 64) :
    ∃ m', (Engine.change entry).perform m = (.error (DiskStore.refusal entry.key), m') ∧
      Stands berth m' (bound + entry.pages) (logged ++ [⟨m'.item.tail, entry⟩]) (given ++ [m'.item.tail]) c ∧
      m.item.tail < m'.item.tail := by
  obtain ⟨m', wrote, stands', less, -⟩ := stands.log entry small
  refine ⟨m', ?_, stands', less⟩
  rw [Engine.change, Action.perform_bind, Action.perform_ofExcept, checkKey_client client]
  simp only [Engine.logAndApply, Action.perform_bind, wrote, stands'.apply_refused refused]

/-- A bookkeeping key is refused before anything is done. -/
theorem change_reserved (m : Mounted Engine) (reserved : isReserved entry.key = true) :
    (change entry).perform m = (.error .reservedKey, m) := by
  rw [Engine.change, Action.perform_bind, Action.perform_ofExcept, checkKey, if_pos reserved]

/-- A scan is delivered up to the entry that the store refuses. -/
theorem Stands.deliver_refused (stands : Stands berth m bound logged given c) (version : Position)
    {records : List LoggedEntry} {record : LoggedEntry} (passed : ∀ r ∈ records, r.position ≤ version)
    (new : version < record.position) (counted : record.entry.Counted)
    (refused : ¬ berth.backend.Accepts record.entry.key) :
    (Scan.deliver ⟨(records ++ [record]).map LoggedEntry.record, none⟩ (Engine.applyAfter version)).perform m =
      (.error (DiskStore.refusal record.entry.key), m) := by
  induction records with
  | nil =>
    have after : (Engine.applyAfter version record.position (Entry.layout.write record.entry)).perform m =
        (.error (DiskStore.refusal record.entry.key), m) := by
      rw [Engine.applyAfter, if_neg (Position.not_le.mpr new), Action.perform_bind, Action.perform_ofExcept,
        counted.spells.parse]
      exact stands.apply_refused refused
    rw [List.nil_append, List.map_singleton, LoggedEntry.record, Scan.perform_deliver_cons, after]
  | cons r rest ih =>
    have before : (Engine.applyAfter version r.position (Entry.layout.write r.entry)).perform m = (.ok (), m) := by
      rw [Engine.applyAfter, if_pos (passed r List.mem_cons_self)]
      rfl
    rw [List.cons_append, List.map_cons, LoggedEntry.record, Scan.perform_deliver_cons, before]
    exact ih fun r' member => passed r' (List.mem_cons_of_mem r member)

/-- Recovery stops at an entry after the version that the store refuses. -/
theorem Rests.recover_refused {record : LoggedEntry} {q : Position}
    (rests : Rests berth m bound (logged ++ [record]) given c) (small : bound + 1 < 2 ^ 64) (version : c.version = some q)
    (known : q ∈ given) (passed : ∀ r ∈ logged, r.position ≤ q) (new : q < record.position)
    (counted : record.entry.Counted) (refused : ¬ berth.backend.Accepts record.entry.key) :
    (Engine.recover.perform m).1 = .error (DiskStore.refusal record.entry.key) := by
  obtain ⟨m₁, done, journal, within⟩ := rests.perform_mount small
  have mounted : (onLog Log.mount).perform m = (.ok m₁.item.position, ⟨m₁.disk, { m.item with log := m₁.item }⟩) := by
    rw [perform_onLog, done]
  have stands : Stands berth ⟨m₁.disk, { m.item with log := m₁.item }⟩ (bound + 1) (logged ++ [record])
      (given ++ [m₁.item.position]) c :=
    ⟨journal, within.dir.trans rests.sameDir, rests.bears.kept berth.apart journal.sound within.changes⟩
  have inside : q < m₁.item.position := Position.lt_of_lt_of_le new (stands.sorted.2 record (by simp)).2
  obtain ⟨skipped, kept, parts, early, scan⟩ :=
    journal.scan (.inr (List.mem_append_left _ known)) (Position.le_of_lt inside)
  -- The refused entry comes after the version, so it is the last of those that are read.
  obtain ⟨read, rfl, inLog⟩ : ∃ read : List LoggedEntry,
      kept = (read ++ [record]).map LoggedEntry.record ∧ ∀ r ∈ read, r ∈ logged := by
    obtain ⟨old, read, all, rfl, rfl⟩ := List.map_eq_append_iff.mp parts
    rcases List.eq_nil_or_concat read with rfl | ⟨init, last, rfl⟩
    · have member : record ∈ old := by
        rw [List.append_nil] at all
        rw [← all]
        simp
      exact absurd new (Position.not_lt.mpr (early _ (List.mem_map_of_mem member)))
    · rw [List.concat_eq_append, ← List.append_assoc] at all
      obtain ⟨same, last⟩ := List.append_inj' all rfl
      cases last
      exact ⟨init, by rw [List.concat_eq_append], fun r member => same ▸ List.mem_append_right _ member⟩
  have marked := stands.version
  rw [version] at marked
  have delivered := stands.deliver_refused q (fun r member => passed r (inLog r member)) new counted refused
  have whole : Log.scan m₁.disk m₁.item q = ⟨(read ++ [record]).map LoggedEntry.record, none⟩ := scan
  simp only [Engine.recover, Action.perform_bind, mounted, Mounted.perform_reading, marked, Option.getD_some,
    if_neg (Position.not_lt.mpr (Position.le_of_lt inside)), whole, delivered]

/-! ## Failed changes -/

/-- A change that failed has left no trace: the log gives the same records after every position
    up to where it ended, the client has the same entries, and a new engine in the place of
    this one comes up with the entries that it would have come up with. -/
structure Traceless (m m' : Mounted Engine) : Prop where
  logs : ∀ p ≤ m.item.tail, logsAfter p m'.disk m'.item = logsAfter p m.disk m.item
  clients : clients m'.disk m'.item = clients m.disk m.item
  reopens : ∀ limit, ∃ tail n tail' n' entries, recover.perform (reopen limit m) = (.ok tail, n) ∧
    recover.perform (reopen limit m') = (.ok tail', n') ∧ Engine.clients n.disk n.item = .ok entries ∧
    Engine.clients n'.disk n'.item = .ok entries

/-- What is left of a change that the store refuses: its entry is in the log, and a new engine
    does not come up. -/
structure Stuck (m m' : Mounted Engine) (logged : List LoggedEntry) (entry : Entry) (e : Error) : Prop where
  logs : ∃ p, logsAfter .start m.disk m.item = .ok logged ∧
    logsAfter .start m'.disk m'.item = .ok (logged ++ [⟨p, entry⟩])
  clients : clients m'.disk m'.item = clients m.disk m.item
  reopens : ∀ limit, (recover.perform (reopen limit m')).1 = .error e

theorem Stuck.not_traceless {e : Error} (stuck : Stuck m m' logged entry e) : ¬ Traceless m m' := by
  intro traceless
  obtain ⟨tail, n, tail', n', entries, -, up, -⟩ := traceless.reopens 0
  have down := stuck.reopens 0
  rw [up] at down
  cases down

/-- A change of a client's key that the store does not take leaves the engine stuck. -/
theorem Lasts.stuck (lasts : Lasts berth m bound logged given c) (up : m.item.log.mounted = true)
    (counted : entry.Counted) (client : isReserved entry.key = false) (refused : ¬ berth.backend.Accepts entry.key)
    (small : bound + entry.pages + 1 < 2 ^ 64) :
    ∃ m', (Engine.change entry).perform m = (.error (DiskStore.refusal entry.key), m') ∧
      Stuck m m' logged entry (DiskStore.refusal entry.key) := by
  obtain ⟨q, version, within, covers⟩ := lasts.settled up
  have stands := lasts.stands up
  obtain ⟨m', failed, stands', less⟩ := stands.change_refused client refused (by omega)
  have known := lasts.known q version
  refine ⟨m', failed, ⟨m'.item.tail, ?_, ?_⟩, ?_, fun limit => ?_⟩
  · rw [stands.logsAfter (fun r member => (lasts.fits r member).counted) (.inl rfl) stands.journal.start_le,
      later_eq_self fun r member => (stands.sorted.2 r member).1]
  · have all : ∀ r ∈ logged ++ [⟨m'.item.tail, entry⟩], r.entry.Counted := by
      intro r member
      rcases List.mem_append.mp member with old | new
      · exact (lasts.fits r old).counted
      · rw [List.mem_singleton.mp new]
        exact counted
    rw [stands'.logsAfter all (.inl rfl) stands'.journal.start_le,
      later_eq_self fun r member => (stands'.sorted.2 r member).1]
  · rw [stands'.clients, stands.clients]
  · exact (stands'.rests.reopen limit).recover_refused small version (List.mem_append_left _ known) covers
      (Position.lt_of_le_of_lt within less) counted refused

/-- A change that fails leaves no trace just when its key is a bookkeeping key. Any other has
    been refused by the store, when its entry was in the log. -/
theorem Lived.change_failed {e : Error} (lived : Lived berth m bound logged given) (up : m.item.log.mounted = true)
    (counted : entry.Counted) (small : bound + entry.pages + 2 < 2 ^ 64)
    (failed : (Engine.change entry).perform m = (.error e, m')) :
    (Traceless m m' ↔ isReserved entry.key = true) ∧
      (isReserved entry.key = false → ¬ berth.backend.Accepts entry.key ∧ Stuck m m' logged entry e) := by
  obtain ⟨c, lasts⟩ := lived.lasts (by omega)
  cases reserved : isReserved entry.key with
  | true =>
    rw [change_reserved m reserved] at failed
    cases failed
    refine ⟨iff_of_true ⟨fun p _ => rfl, rfl, fun limit => ?_⟩ rfl, by simp⟩
    obtain ⟨p, version, -⟩ := lasts.settled up
    obtain ⟨tail, n, recovered, -, -, clients, -⟩ :=
      lasts.rests.reopen_recoversTo (by omega) lasts.fits version (lasts.known p version) limit
    exact ⟨tail, n, tail, n, _, recovered, recovered, clients, clients⟩
  | false =>
    have refused : ¬ berth.backend.Accepts entry.key := by
      intro accepted
      obtain ⟨m'', done, -⟩ := (lasts.stands up).change ⟨counted, reserved, accepted⟩ (by omega)
      rw [failed] at done
      cases done
    obtain ⟨m'', failed', stuck⟩ := lasts.stuck up counted reserved refused (by omega)
    rw [failed] at failed'
    cases failed'
    exact ⟨iff_of_false stuck.not_traceless (by simp), fun _ => ⟨refused, stuck⟩⟩

/-- A directory for a log and one for a store, both empty. -/
def twoDirectories : FileTree := (FileTree.empty.add ["wal"] .directory).add ["kv"] .directory

/-- The log and the store in their directories. -/
def diskBerth : Berth where
  dir := ["", "wal"]
  place := ["wal"]
  backend := .disk ["", "kv"] ["kv"]
  apart := show ["kv"] ≠ ["wal"] by decide

/-- An engine over two empty directories comes up. -/
theorem exists_lived_on_disk :
    ∃ m p c, recover.perform ⟨twoDirectories, ⟨.fresh ["", "wal"] 8192, .disk ["", "kv"]⟩⟩ = (.ok p, m) ∧
      Lived diskBerth m 1 [] [p] ∧ m.item.log.mounted = true ∧ Lasts diskBerth m 1 [] [p] c := by
  have nothing : ∀ name : String, twoDirectories.find? (["kv"] ++ [name]) = none := fun name => by
    simp [twoDirectories, FileTree.find?, FileTree.add, FileTree.empty]
  have sound : twoDirectories.Sound := (FileTree.Sound.empty.makeDirectory rfl rfl).makeDirectory rfl rfl
  have holds : DiskStore.Holds twoDirectories ["", "kv"] ["kv"] .empty := by
    constructor
    case sound => exact sound
    case hosts => exact ⟨rfl, rfl, by decide⟩
    case sorted => exact .empty
    case absent => exact fun key _ _ => nothing _
    case temporary =>
      intro key _
      rw [nothing]
      simp
    case others =>
      intro name id content key there
      rw [nothing] at there
      cases there
    all_goals simp
  have reopened : Reopened diskBerth twoDirectories ⟨twoDirectories, ⟨.fresh ["", "wal"] 8192, .disk ["", "kv"]⟩⟩
      ⟨.empty, none, none⟩ :=
    ⟨⟨8192, rfl⟩, ⟨sound, FileTree.keepsDirectories_refl _, fun _ => rfl⟩, .empty, ⟨rfl, holds⟩, rfl, rfl, rfl⟩
  have begins := Lived.begin sound ⟨rfl, rfl, by decide⟩ rfl reopened rfl
  obtain ⟨c, lasts⟩ := begins.lasts (by decide)
  obtain ⟨log, mount, -⟩ := lasts.rests.perform_mount (by decide)
  obtain ⟨m, done, stands, -⟩ :=
    lasts.rests.recover (by decide) lasts.fits mount fun p version => .inl (lasts.known p version)
  have lived := begins.recover done
  obtain ⟨c', lasts'⟩ := lived.lasts (by decide)
  exact ⟨m, _, c', done, lived, stands.journal.mounted, lasts'⟩

/-- The empty key is refused by a store on disk, with its entry in the log. -/
theorem Lived.change_failed_empty_key : ∃ m m' p e,
    Engine.recover.perform ⟨twoDirectories, ⟨.fresh ["", "wal"] 8192, .disk ["", "kv"]⟩⟩ = (.ok p, m) ∧
    Lived diskBerth m 1 [] [p] ∧ m.item.log.mounted = true ∧ (Entry.put [] [118]).Counted ∧
    1 + (Entry.put [] [118]).pages + 2 < 2 ^ 64 ∧ (Engine.put [] [118]).perform m = (.error e, m') ∧
    (Traceless m m' ↔ isReserved [] = true) ∧
    (isReserved [] = false → ¬ diskBerth.backend.Accepts [] ∧ Stuck m m' [] (.put [] [118]) e) := by
  obtain ⟨m, p, c, done, lived, up, lasts⟩ := exists_lived_on_disk
  have counted : (Entry.put [] [118]).Counted := ⟨by decide, by decide⟩
  have refused : ¬ diskBerth.backend.Accepts (Entry.put [] [118]).key := fun names => names.1 rfl
  obtain ⟨m', failed, -⟩ := lasts.stuck up counted rfl refused (by decide)
  exact ⟨m, m', p, _, done, lived, up, counted, by decide, failed, lived.change_failed up counted (by decide) failed⟩

/-- Putting a value under the empty key fails, and leaves a trace. -/
theorem Traceless.fails_at_empty_key : ∃ m m' p e,
    Engine.recover.perform ⟨twoDirectories, ⟨.fresh ["", "wal"] 8192, .disk ["", "kv"]⟩⟩ = (.ok p, m) ∧
    (Engine.put [] [118]).perform m = (.error e, m') ∧ ¬ Traceless m m' := by
  obtain ⟨m, p, c, done, -, up, lasts⟩ := exists_lived_on_disk
  have refused : ¬ diskBerth.backend.Accepts (Entry.put [] [118]).key := fun names => names.1 rfl
  obtain ⟨m', failed, stuck⟩ := lasts.stuck up ⟨by decide, by decide⟩ rfl refused (by decide)
  exact ⟨m, m', p, _, done, failed, stuck.not_traceless⟩

end Engine
end Shiplog
