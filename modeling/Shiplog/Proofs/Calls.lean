import Shiplog.Proofs.FailedInstalls
import Shiplog.Proofs.Installs
import Shiplog.Proofs.Redeliveries

/-!
The calls of an engine. A call either goes well or is refused for a bookkeeping key (`Fine`).
While all calls are fine, the version covers every record of the log (`Calm`), so that a
recovery, and a new engine that takes the place of the old, find nothing to apply
(`Calm.recover`). An installation makes any engine calm, whatever its log holds behind
the version (`Stands.install_endures`).
-/
namespace Shiplog.Engine

/-! ## What the store is left with -/

/-- What some actions on the store leave: it holds a map, the same under every bookkeeping key
    but the two markers, and all other directories are as they were. -/
def Confined (b : Backend) (m m' : Mounted Engine) : Prop :=
  ∀ kv, b.Holds m.disk m.item.store kv → ∃ kv', b.Holds m'.disk m'.item.store kv' ∧
    (∀ key, isReserved key = true → key ≠ versionKey → key ≠ replicatedKey → kv'.get? key = kv.get? key) ∧
    ∀ place, b.Apart place → ∀ name, m'.disk.find? (place ++ [name]) = m.disk.find? (place ++ [name])

/-- The same where the markers stay too. -/
def Guards (b : Backend) (m m' : Mounted Engine) : Prop :=
  ∀ kv, b.Holds m.disk m.item.store kv → ∃ kv', b.Holds m'.disk m'.item.store kv' ∧
    (∀ key, isReserved key = true → kv'.get? key = kv.get? key) ∧
    ∀ place, b.Apart place → ∀ name, m'.disk.find? (place ++ [name]) = m.disk.find? (place ++ [name])

/-- As `Confined` without the directories, for what works on the log too. -/
def Spares (b : Backend) (m m' : Mounted Engine) : Prop :=
  ∀ kv, b.Holds m.disk m.item.store kv → ∃ kv', b.Holds m'.disk m'.item.store kv' ∧
    ∀ key, isReserved key = true → key ≠ versionKey → key ≠ replicatedKey → kv'.get? key = kv.get? key

variable {b : Backend} {berth : Berth} {m m' n : Mounted Engine} {bound : Nat} {logged : List LoggedEntry}
  {given : List Position} {c : Content} {α : Type}

instance : IsPreorder (Mounted Engine) (Confined b) where
  refl _ := fun kv holds => ⟨kv, holds, fun _ _ _ _ => rfl, fun _ _ _ => rfl⟩
  trans _ _ _ := fun first second kv holds => by
    obtain ⟨kv₁, holds₁, same₁, files₁⟩ := first kv holds
    obtain ⟨kv₂, holds₂, same₂, files₂⟩ := second kv₁ holds₁
    exact ⟨kv₂, holds₂, fun key reserved version fence =>
      (same₂ key reserved version fence).trans (same₁ key reserved version fence),
      fun place apart name => (files₂ place apart name).trans (files₁ place apart name)⟩

instance : IsPreorder (Mounted Engine) (Guards b) where
  refl _ := fun kv holds => ⟨kv, holds, fun _ _ => rfl, fun _ _ _ => rfl⟩
  trans _ _ _ := fun first second kv holds => by
    obtain ⟨kv₁, holds₁, same₁, files₁⟩ := first kv holds
    obtain ⟨kv₂, holds₂, same₂, files₂⟩ := second kv₁ holds₁
    exact ⟨kv₂, holds₂, fun key reserved => (same₂ key reserved).trans (same₁ key reserved),
      fun place apart name => (files₂ place apart name).trans (files₁ place apart name)⟩

instance : IsPreorder (Mounted Engine) (Spares b) where
  refl _ := fun kv holds => ⟨kv, holds, fun _ _ _ _ => rfl⟩
  trans _ _ _ := fun first second kv holds => by
    obtain ⟨kv₁, holds₁, same₁⟩ := first kv holds
    obtain ⟨kv₂, holds₂, same₂⟩ := second kv₁ holds₁
    exact ⟨kv₂, holds₂, fun key reserved version fence =>
      (same₂ key reserved version fence).trans (same₁ key reserved version fence)⟩

theorem Confined.spares (confined : Confined b m m') : Spares b m m' := by
  intro kv holds
  obtain ⟨kv', holds', same, -⟩ := confined kv holds
  exact ⟨kv', holds', same⟩

theorem Guards.confined (guards : Guards b m m') : Confined b m m' := by
  intro kv holds
  obtain ⟨kv', holds', same, files⟩ := guards kv holds
  exact ⟨kv', holds', fun key reserved _ _ => same key reserved, files⟩

/-- An entry of a client touches none of the bookkeeping keys, whether the store takes it or not. -/
theorem guards_apply {entry : Entry} (client : isReserved entry.key = false) :
    Action.Obeys (Guards b) (Engine.apply entry) := by
  intro m kv holds
  have other : ∀ key, isReserved key = true → key ≠ entry.key := by
    rintro key reserved rfl
    rw [client] at reserved
    cases reserved
  by_cases accepts : b.Accepts entry.key
  · have effect : ∃ s, (if entry.deleted then Store.delete entry.key else Store.put entry.key entry.value).perform
        ⟨m.disk, m.item.store⟩ = (.ok (), s) ∧ b.Holds s.disk s.item (entry.effect kv) ∧ b.Within m.disk s.disk := by
      unfold Entry.effect
      cases entry.deleted with
      | true => exact holds.perform_delete accepts
      | false => exact holds.perform_put accepts entry.value
    obtain ⟨s, done, holds', within⟩ := effect
    rw [Engine.apply, perform_onStore_of done]
    refine ⟨_, holds', fun key reserved => ?_, fun place apart name => within.same apart name⟩
    rw [Entry.get?_effect, if_neg (other key reserved)]
  · rw [Engine.apply, perform_onStore_of (holds.perform_refused accepts)]
    exact ⟨kv, holds, fun _ _ => rfl, fun _ _ _ => rfl⟩

theorem confined_apply {entry : Entry} (client : isReserved entry.key = false) :
    Action.Obeys (Confined b) (Engine.apply entry) := fun m => (guards_apply client m).confined

theorem confined_setMarker {key : Bytes} (marker : key = versionKey ∨ key = replicatedKey) (p : Position) :
    Action.Obeys (Confined b) (setMarker key p) := by
  intro m kv holds
  have accepts : b.Accepts key := by
    rcases marker with rfl | rfl
    · exact b.accepts_versionKey
    · exact b.accepts_replicatedKey
  obtain ⟨s, done, holds', within⟩ := holds.perform_put accepts (Position.layout.write p)
  rw [setMarker, perform_onStore_of done]
  refine ⟨_, holds', fun k _ version fence => ?_, fun place apart name => within.same apart name⟩
  have other : k ≠ key := by
    rcases marker with rfl | rfl
    · exact version
    · exact fence
  rw [OrderedMap.get?_insert, if_neg other]

/-- An installation is confined to the store, and to the client's keys and the markers there. -/
theorem confined_install (snapshot : Snapshot) : Action.Obeys (Confined b) (Engine.install snapshot) := by
  unfold Engine.install putEntries
  refine Action.Obeys.bind (.reading _) fun present => Action.Obeys.bind (.forM ?_ _) fun _ => ?_
  · rintro ⟨key, value⟩
    cases reserved : isReserved key with
    | true =>
      have refused : checkKey key = .error .reservedKey := by rw [checkKey, if_pos reserved]
      simp only [refused]
      exact fun m => Std.Refl.refl m
    | false =>
      have client : isReserved (Entry.put key value).key = false := reserved
      exact Action.Obeys.bind (.ofExcept _) fun _ => confined_apply client
  · refine Action.Obeys.bind (.forM_mem fun key stale => ?_) fun _ => ?_
    · obtain ⟨value, there⟩ := present_of_stale stale
      have unreserved : isReserved key = false := by simpa using (List.mem_filter.mp there).2
      have client : isReserved (Entry.delete key).key = false := unreserved
      exact confined_apply client
    · refine (confined_setMarker (.inr rfl) _).bind fun _ => Action.Obeys.bind (.reading _) fun e => ?_
      exact confined_setMarker (.inl rfl) _

theorem Stands.spares_log (stands : Stands berth m bound logged given c) (entry : Entry)
    (small : bound + entry.pages < 2 ^ 64) :
    Spares berth.backend m ((onLog (Log.write (Entry.layout.write entry))).perform m).2 := by
  obtain ⟨m', done, journal, -, within⟩ := stands.journal.write (Entry.layout.write entry) small
  rw [perform_onLog, done]
  exact fun kv holds => ⟨kv, holds.kept berth.apart journal.sound within.changes, fun _ _ _ _ => rfl⟩

theorem Stands.spares_startTerm (stands : Stands berth m bound logged given c) {term : UInt64}
    (higher : m.item.tail.term < term) (small : bound + 1 < 2 ^ 64) :
    Spares berth.backend m ((Engine.startTerm term).perform m).2 := by
  obtain ⟨m', done, journal, -, within⟩ := stands.journal.startTerm higher small
  rw [Engine.startTerm, perform_onLog, done]
  exact fun kv holds => ⟨kv, holds.kept berth.apart journal.sound within.changes, fun _ _ _ _ => rfl⟩

theorem Stands.spares_logAndApply (stands : Stands berth m bound logged given c) {entry : Entry}
    (client : isReserved entry.key = false) (small : bound + entry.pages < 2 ^ 64) :
    Spares berth.backend m ((Engine.logAndApply entry).perform m).2 := by
  unfold Engine.logAndApply
  refine Action.Obeys.after (stands.spares_log entry small) fun p => ?_
  refine Action.Obeys.bind (fun m => (confined_apply client m).spares) fun _ => ?_
  exact Action.Obeys.bind (fun m => (confined_setMarker (.inl rfl) p m).spares) fun _ => .ofExcept (.ok p)

/-! ## Calls -/

/-- A call of an engine. -/
inductive Call where
  | change (entry : Entry)
  | replay (records : List LoggedEntry)
  | install (snapshot : Snapshot)
  | startTerm (term : UInt64)
  /-- The engine recovers once more. -/
  | recover
  /-- A new engine takes the place of the old, over the same files and the same store, and
      recovers. -/
  | restart (limit : UInt64)

namespace Call

def act : Call → Action (Mounted Engine) Unit
  | change entry => do let _ ← Engine.change entry
  | replay records => do let _ ← Engine.replay records
  | install snapshot => Engine.install snapshot
  | startTerm term => do let _ ← Engine.startTerm term
  | recover => do let _ ← Engine.recover
  | restart limit => do
    Action.ofStep fun m => (.ok (), reopen limit m)
    let _ ← Engine.recover

/-- The pages that a call may write, and the files it may create. -/
def cost : Call → Nat
  | change entry => entry.pages
  | replay records => pages records
  | install _ => 0
  | startTerm _ | recover | restart _ => 1

def costs (calls : List Call) : Nat := (calls.map cost).sum

end Call

/-- An answer that is no error, or the one that refuses a bookkeeping key. -/
def Fine (answer : Except Error α) : Prop := ∀ e, answer = .error e → e = .reservedKey

theorem fine_ok (a : α) : Fine (Except.ok a) := by
  intro e same
  cases same

/-- An action in two parts ends fine if both go well as far as they are done, or if the first is
    refused. -/
theorem Fine.parts {β : Type} {act : Action (Mounted Engine) α} {next : α → Action (Mounted Engine) β}
    {answer : Except Error β} (fine : Fine answer) (done : (act >>= next).perform m = (answer, m')) :
    (∃ a m₁, act.perform m = (.ok a, m₁) ∧ (next a).perform m₁ = (answer, m')) ∨
      act.perform m = (.error .reservedKey, m') := by
  rw [Action.perform_bind] at done
  rcases first : act.perform m with ⟨e | a, m₁⟩
  · rw [first] at done
    cases done
    rw [fine e rfl]
    exact .inr rfl
  · rw [first] at done
    exact .inl ⟨a, m₁, rfl, done⟩

theorem fine_reserved : Fine (.error .reservedKey : Except Error α) := by
  rintro e ⟨⟩
  rfl

/-- The same when something is made of the answer. -/
theorem Fine.inner {β : Type} {act : Action (Mounted Engine) α} {f : α → β} {answer : Except Error β}
    (fine : Fine answer) (done : (act >>= fun a => pure (f a)).perform m = (answer, m')) :
    ∃ full, act.perform m = (full, m') ∧ Fine full := by
  rcases fine.parts done with ⟨a, m₁, first, last⟩ | refused
  · cases last
    exact ⟨_, first, fine_ok a⟩
  · exact ⟨_, refused, fine_reserved⟩

/-- A fence that is not behind another. -/
def Advances (fence fence' : Option Position) : Prop := ∀ p, fence = some p → ∃ p', fence' = some p' ∧ p ≤ p'

theorem Advances.refl (fence : Option Position) : Advances fence fence := fun p same => ⟨p, same, Position.le_refl p⟩

theorem Advances.trans {first second third : Option Position} (before : Advances first second)
    (after : Advances second third) : Advances first third := by
  intro p same
  obtain ⟨q, same', le⟩ := before p same
  obtain ⟨r, same'', le'⟩ := after q same'
  exact ⟨r, same'', Position.le_trans le le'⟩

/-! ## Calm engines -/

/-- An engine that is up and whose version covers every record of its log. -/
structure Calm (berth : Berth) (m : Mounted Engine) (bound : Nat) (logged : List LoggedEntry) (given : List Position)
    (c : Content) : Prop where
  stands : Stands berth m bound logged given c
  settled : Settled m logged given c.version

theorem Calm.mono {bound' : Nat} (calm : Calm berth m bound logged given c) (le : bound ≤ bound')
    (small : bound' < 2 ^ 64) :
    Calm berth m bound' logged given c := ⟨calm.stands.mono le small, calm.settled⟩

/-- Records that the version covers are passed over. -/
theorem perform_deliver_covered {version : Position} {records : List (Position × Bytes)}
    (covered : ∀ record ∈ records, record.1 ≤ version) :
    (Scan.deliver ⟨records, none⟩ (applyAfter version)).perform m = (.ok (), m) := by
  induction records with
  | nil => rfl
  | cons record rest ih =>
    have passed : (applyAfter version record.1 record.2).perform m = (.ok (), m) := by
      rw [applyAfter, if_pos (covered record List.mem_cons_self)]
      rfl
    rw [Scan.perform_deliver_cons, passed]
    exact ih fun r member => covered r (List.mem_cons_of_mem record member)

theorem decodeAfter_covered {version : Position} {records : List (Position × Bytes)}
    (covered : ∀ record ∈ records, record.1 ≤ version) : decodeAfter version records = .ok [] := by
  induction records with
  | nil => rfl
  | cons record rest ih =>
    rw [decodeAfter, if_neg (Position.not_lt.mpr (covered record List.mem_cons_self))]
    exact ih fun r member => covered r (List.mem_cons_of_mem record member)

/-- The version covers the log: it lies within it, no record comes after it, and nothing is
    found behind it. -/
def Covered (m : Mounted Engine) : Prop :=
  ∃ p records, version m.disk m.item = .ok p ∧ p ≤ m.item.tail ∧ m.item.log.scan m.disk .start = ⟨records, none⟩ ∧
    (∀ record ∈ records, record.1 ≤ p) ∧ logsAfter p m.disk m.item = .ok []

/-- A scan after the version of a calm engine gives only records that it covers. -/
theorem Calm.scan {p : Position} (calm : Calm berth m bound logged given c) (marked : c.version = some p) :
    ∃ records, m.item.log.scan m.disk p = ⟨records, none⟩ ∧ ∀ record ∈ records, record.1 ≤ p := by
  obtain ⟨stands, q, version, known, inside, covers⟩ := calm
  obtain rfl : q = p := Option.some.inj (version.symm.trans marked)
  obtain ⟨skipped, kept, parts, -, scan⟩ := stands.journal.scan (.inr known) inside
  refine ⟨kept, scan, fun record member => ?_⟩
  obtain ⟨r, there, rfl⟩ := List.mem_map.mp (parts ▸ List.mem_append_right skipped member)
  exact covers r there

theorem Calm.covered (calm : Calm berth m bound logged given c) : Covered m := by
  obtain ⟨p, marked, -, inside, covers⟩ := calm.settled
  obtain ⟨records, scan, passed⟩ := calm.scan marked
  have version := calm.stands.version
  rw [marked] at version
  refine ⟨p, logged.map LoggedEntry.record, version, inside, calm.stands.journal.scan_start, ?_, ?_⟩
  · intro record member
    obtain ⟨r, there, rfl⟩ := List.mem_map.mp member
    exact covers r there
  · rw [logsAfter, scan, decodeAfter_covered passed]
    rfl

/-- A recovery, by the engine itself or by a new one in its place, applies nothing and marks the
    end of the log. -/
theorem Calm.recover (calm : Calm berth m bound logged given c) (small : bound + 1 < 2 ^ 64) {log : Log}
    (home : log.dir = m.item.log.dir) :
    ∃ m', Engine.recover.perform ⟨m.disk, ⟨log, m.item.store⟩⟩ = (.ok m.item.tail, m') ∧
      Calm berth m' bound logged (given ++ [m.item.tail]) { c with version := some m.item.tail } ∧
      m'.item.tail = m.item.tail ∧ Confined berth.backend m m' := by
  obtain ⟨p, marked, known, inside, covers⟩ := calm.settled
  have stands := calm.stands
  obtain ⟨log', mount, journal, position, dir⟩ := stands.journal.mount home small
  have tail : log'.position = m.item.tail := position
  have stands₁ : Stands berth ⟨m.disk, ⟨log', m.item.store⟩⟩ bound logged given c :=
    ⟨journal, dir.trans stands.sameDir, stands.bears⟩
  have calm₁ : Calm berth ⟨m.disk, ⟨log', m.item.store⟩⟩ bound logged given c := by
    refine ⟨stands₁, p, marked, known, ?_, covers⟩
    rw [Engine.tail, tail]
    exact inside
  obtain ⟨records, scan, passed⟩ := calm₁.scan marked
  obtain ⟨m', marks, stands', log''⟩ := stands₁.setVersion m.item.tail
  have tail' : m'.item.tail = m.item.tail := (congrArg Log.position log'').trans tail
  have version := stands₁.version
  rw [marked] at version
  have mounted : (onLog Log.mount).perform ⟨m.disk, ⟨log, m.item.store⟩⟩ =
      (.ok m.item.tail, ⟨m.disk, ⟨log', m.item.store⟩⟩) :=
    perform_onLog_of (m := ⟨m.disk, ⟨log, m.item.store⟩⟩) mount
  refine ⟨m', perform_recover mounted version ?_ marks, ⟨?_, ?_⟩, tail', ?_⟩
  · rw [Option.getD_some, if_neg (Position.not_lt.mpr inside)]
    have read : Log.scan m.disk log' p = ⟨records, none⟩ := scan
    exact (congrArg (fun s => (Scan.deliver s (applyAfter p)).perform _) read).trans (perform_deliver_covered passed)
  · have known' := stands'.withTail
    rwa [tail'] at known'
  · refine ⟨m.item.tail, rfl, by simp, by rw [tail']; exact Position.le_refl _, fun r member => ?_⟩
    exact (stands.sorted.2 r member).2
  · have moved := confined_setMarker (b := berth.backend) (.inl rfl) m.item.tail ⟨m.disk, ⟨log', m.item.store⟩⟩
    rwa [marks] at moved

/-! ## What a call leaves -/

/-- What a fine call leaves of a calm engine. -/
structure Leads (berth : Berth) (m : Mounted Engine) (fence : Option Position) (m' : Mounted Engine) (bound : Nat)
    (call : Call) (answer : Except Error Unit) (logged : List LoggedEntry) (given : List Position) (c : Content) :
    Prop where
  calm : Calm berth m' bound logged given c
  spares : Spares berth.backend m m'
  /-- The fence moves forward, or an installation sets it. -/
  fence : Advances fence c.replicated ∨
    ∃ snapshot, call = .install snapshot ∧ answer = .ok () ∧ c.replicated = some snapshot.position

/-- A client's entry is logged and applied, or the store does not take its key. -/
theorem Calm.logAndApply {entry : Entry} {answer : Except Error Position} (calm : Calm berth m bound logged given c)
    (client : isReserved entry.key = false) (small : bound + entry.pages < 2 ^ 64)
    (done : (Engine.logAndApply entry).perform m = (answer, m')) (fine : Fine answer) :
    answer = .ok m'.item.tail ∧ Calm berth m' (bound + entry.pages) (logged ++ [⟨m'.item.tail, entry⟩])
      (given ++ [m'.item.tail]) { c with user := entry.effect c.user, version := some m'.item.tail } := by
  have stands := calm.stands
  by_cases accepts : berth.backend.Accepts entry.key
  · obtain ⟨m₁, done', stands₁, -⟩ := stands.logAndApply client accepts small
    rw [done'] at done
    cases done
    exact ⟨rfl, stands₁, stands₁.settled rfl (by simp)⟩
  · obtain ⟨m₁, wrote, stands₁, -⟩ := stands.log entry small
    have refused : (Engine.logAndApply entry).perform m = (.error (DiskStore.refusal entry.key), m₁) := by
      simp only [Engine.logAndApply, Action.perform_bind, wrote, stands₁.apply_refused accepts]
    rw [refused] at done
    cases done
    exact absurd (fine _ rfl) (by simp [DiskStore.refusal])

/-- A fine change logs and applies its entry, or is refused for a bookkeeping key. -/
theorem Calm.change {entry : Entry} {answer : Except Error Position} (calm : Calm berth m bound logged given c)
    (small : bound + entry.pages < 2 ^ 64) (done : (Engine.change entry).perform m = (answer, m'))
    (fine : Fine answer) :
    ∃ logged' given' c', Calm berth m' (bound + entry.pages) logged' given' c' ∧ Spares berth.backend m m' ∧
      c'.replicated = c.replicated := by
  rw [Engine.change, Action.perform_bind, Action.perform_ofExcept, checkKey] at done
  cases reserved : isReserved entry.key with
  | true =>
    rw [reserved, if_pos rfl] at done
    cases done
    exact ⟨_, _, c, calm.mono (Nat.le_add_right _ _) small, Std.Refl.refl _, rfl⟩
  | false =>
    rw [reserved, if_neg Bool.false_ne_true] at done
    have spares := calm.stands.spares_logAndApply reserved small
    rw [show (Engine.logAndApply entry).perform m = (answer, m') from done] at spares
    exact ⟨_, _, _, (calm.logAndApply reserved small done fine).2, spares, rfl⟩

/-- A new term moves the tail and logs no record; one that is not higher changes nothing. -/
theorem Calm.startTerm {term : UInt64} {answer : Except Error Position} (calm : Calm berth m bound logged given c)
    (small : bound + 1 < 2 ^ 64) (done : (Engine.startTerm term).perform m = (answer, m')) :
    ∃ given', Calm berth m' (bound + 1) logged given' c ∧ Spares berth.backend m m' := by
  by_cases higher : m.item.tail.term < term
  · obtain ⟨m₁, done', stands', less⟩ := calm.stands.startTerm higher small
    have spares := calm.stands.spares_startTerm higher small
    rw [done'] at done spares
    cases done
    obtain ⟨p, version, known, inside, covers⟩ := calm.settled
    have inside : p ≤ m'.item.tail := Position.le_trans inside (Position.le_of_lt less)
    exact ⟨_, ⟨stands', p, version, List.mem_append_left _ known, inside, covers⟩, spares⟩
  · obtain ⟨e, refused⟩ := startTerm_low (UInt64.not_lt.mp higher)
    rw [refused] at done
    cases done
    exact ⟨_, calm.mono (Nat.le_succ _) small, Std.Refl.refl _⟩

/-- A record that is new is logged and applied, and becomes the fence. -/
theorem Calm.replayNew {record : LoggedEntry} {p : Position} {m₁ : Mounted Engine}
    (calm : Calm berth m bound logged given c) (client : isReserved record.entry.key = false)
    (small : bound + record.entry.pages < 2 ^ 64) (done : (Engine.logAndApply record.entry).perform m = (.ok p, m₁)) :
    ∃ m₂, (setMarker replicatedKey record.position).perform m₁ = (.ok (), m₂) ∧
      Calm berth m₂ (bound + record.entry.pages) (logged ++ [⟨p, record.entry⟩]) (given ++ [p])
        ⟨record.entry.effect c.user, some p, some record.position⟩ ∧
      Spares berth.backend m m₂ := by
  have spares₁ := calm.stands.spares_logAndApply client small
  rw [done] at spares₁
  obtain ⟨same, stands₁, q, version, known, inside, covers⟩ := calm.logAndApply client small done (fine_ok p)
  cases same
  obtain ⟨m₂, marks, stands₂, log₂⟩ := stands₁.setReplicated record.position
  have tail : m₂.item.tail = m₁.item.tail := congrArg Log.position log₂
  have spares₂ := (confined_setMarker (b := berth.backend) (.inr rfl) record.position m₁).spares
  rw [marks] at spares₂
  exact ⟨m₂, marks, ⟨stands₂, q, version, known, tail ▸ inside, covers⟩, IsTrans.trans _ _ _ spares₁ spares₂⟩

theorem Calm.replayFrom {answer : Except Error Nat} (calm : Calm berth m bound logged given c)
    (records : List LoggedEntry) (small : bound + pages records < 2 ^ 64)
    (done : (Engine.replayFrom c.replicated records).perform m = (answer, m'))
    (fine : Fine answer) :
    ∃ logged' given' c', Calm berth m' (bound + pages records) logged' given' c' ∧ Spares berth.backend m m' ∧
      Advances c.replicated c'.replicated := by
  induction records generalizing m bound logged given c answer with
  | nil =>
    cases done
    exact ⟨_, _, c, calm, Std.Refl.refl _, .refl _⟩
  | cons record rest ih =>
    have sum : pages (record :: rest) = record.entry.pages + pages rest := rfl
    by_cases old : isOld c.replicated record = true
    · have test : c.replicated.any (fun f => decide (record.position ≤ f)) = true := old
      rw [Engine.replayFrom, if_pos test] at done
      obtain ⟨logged', given', c', calm', rest⟩ := ih calm (by omega) done fine
      exact ⟨logged', given', c', calm'.mono (by omega) small, rest⟩
    have test : ¬ c.replicated.any (fun f => decide (record.position ≤ f)) = true := old
    rw [Engine.replayFrom, if_neg test, Action.perform_bind, Action.perform_ofExcept, checkKey] at done
    cases reserved : isReserved record.entry.key with
    | true =>
      rw [reserved, if_pos rfl] at done
      cases done
      exact ⟨_, _, c, calm.mono (by omega) small, Std.Refl.refl _, .refl _⟩
    | false =>
      rw [reserved, if_neg Bool.false_ne_true] at done
      have room : bound + record.entry.pages < 2 ^ 64 := by omega
      have ahead : Advances c.replicated (some record.position) :=
        fun f same => ⟨_, rfl, Position.le_of_lt (isNew_iff.mp old f same)⟩
      rcases fine.parts done with ⟨p, m₁, first, done⟩ | refused
      · obtain ⟨m₂, marks, calm₂, spares₂⟩ := calm.replayNew reserved room first
        simp only [Action.perform_bind_ok marks] at done
        obtain ⟨counts, goes, fine⟩ := fine.inner done
        obtain ⟨logged', given', c', calm', spares', after⟩ := ih calm₂ (by omega) goes fine
        exact ⟨logged', given', c', calm'.mono (by omega) small, IsTrans.trans _ _ _ spares₂ spares', ahead.trans after⟩
      · obtain ⟨same, -⟩ := calm.logAndApply reserved room refused fine_reserved
        cases same

/-- An installation leaves a calm engine calm, even if it is stopped by a key. -/
theorem Calm.install {answer : Except Error Unit} (calm : Calm berth m bound logged given c) (snapshot : Snapshot)
    (done : (Engine.install snapshot).perform m = (answer, m')) :
    ∃ given' c', Calm berth m' bound logged given' c' ∧
      (answer = .ok () ∧ c'.replicated = some snapshot.position ∨ c'.replicated = c.replicated) := by
  rcases brings_cases berth.backend snapshot.entries with all | ⟨before, refused, after, parts, brings, not⟩
  · obtain ⟨present, m₁, -, done', stands', log⟩ := calm.stands.withTail.replaceBy all
    rw [done'] at done
    cases done
    have tail : m'.item.tail = m.item.tail := congrArg Log.position log
    exact ⟨_, _, ⟨stands', stands'.settled (by rw [tail]) (by simp [tail])⟩, .inl ⟨rfl, rfl⟩⟩
  · obtain ⟨m₁, put, stands₁, log⟩ := calm.stands.putEntries brings
    obtain ⟨kv, holds, -⟩ := calm.stands.bears
    obtain ⟨kv₁, holds₁, -⟩ := stands₁.bears
    rw [perform_install_stopped holds parts put holds₁ not] at done
    cases done
    have tail : m'.item.tail = m.item.tail := congrArg Log.position log
    obtain ⟨p, version, known, inside, covers⟩ := calm.settled
    exact ⟨_, _, ⟨stands₁, p, version, known, tail ▸ inside, covers⟩, .inr rfl⟩

theorem Calm.call {answer : Except Error Unit} (calm : Calm berth m bound logged given c) (call : Call)
    (small : bound + call.cost < 2 ^ 64) (done : call.act.perform m = (answer, m')) (fine : Fine answer) :
    ∃ logged' given' c', Leads berth m c.replicated m' (bound + call.cost) call answer logged' given' c' := by
  have stands := calm.stands
  cases call with
  | change entry =>
    obtain ⟨full, done, fine⟩ := fine.inner done
    obtain ⟨logged', given', c', calm', spares, same⟩ := calm.change small done fine
    exact ⟨logged', given', c', calm', spares, .inl (same ▸ .refl _)⟩
  | replay records =>
    obtain ⟨full, done, fine⟩ := fine.inner done
    rw [stands.perform_replay] at done
    obtain ⟨logged', given', c', calm', spares, ahead⟩ := calm.replayFrom records small done fine
    exact ⟨logged', given', c', calm', spares, .inl ahead⟩
  | install snapshot =>
    have done : (Engine.install snapshot).perform m = (answer, m') := done
    obtain ⟨given', c', calm', sets⟩ := calm.install snapshot done
    have confined := confined_install (b := berth.backend) snapshot m
    rw [done] at confined
    refine ⟨logged, given', c', calm', confined.spares, ?_⟩
    rcases sets with ⟨went, set⟩ | same
    · exact .inr ⟨snapshot, rfl, went, set⟩
    · exact .inl (same ▸ .refl _)
  | startTerm term =>
    obtain ⟨full, done, -⟩ := fine.inner done
    obtain ⟨given', calm', spares⟩ := calm.startTerm small done
    exact ⟨logged, given', c, calm', spares, .inl (.refl _)⟩
  | recover =>
    obtain ⟨full, done, -⟩ := fine.inner done
    obtain ⟨m₁, done', calm', -, confined⟩ := calm.recover small rfl
    rw [done'] at done
    cases done
    exact ⟨_, _, _, calm'.mono (Nat.le_succ _) small, confined.spares, .inl (.refl _)⟩
  | restart limit =>
    rw [Call.act, Action.perform_bind, Action.perform_ofStep] at done
    obtain ⟨full, done, -⟩ := fine.inner done
    have home : (Log.fresh m.item.log.dir limit).dir = m.item.log.dir := rfl
    obtain ⟨m₁, done', calm', -, confined⟩ := calm.recover small home
    rw [reopen, done'] at done
    cases done
    exact ⟨_, _, _, calm'.mono (Nat.le_succ _) small, confined.spares, .inl (.refl _)⟩

/-- Calls that all go well leave a calm engine calm. -/
theorem Calm.run (calm : Calm berth m bound logged given c) (calls : List Call)
    (small : bound + Call.costs calls < 2 ^ 64) (done : (calls.forM Call.act).perform m = (.ok (), n)) :
    ∃ logged' given' c', Calm berth n (bound + Call.costs calls) logged' given' c' := by
  induction calls generalizing m bound logged given c with
  | nil =>
    cases done
    exact ⟨_, _, c, calm⟩
  | cons call rest ih =>
    have sum : Call.costs (call :: rest) = call.cost + Call.costs rest := rfl
    rw [Action.perform_forM_cons] at done
    rcases first : call.act.perform m with ⟨e | ⟨⟩, m₁⟩
    · rw [first] at done
      cases done
    · rw [first] at done
      obtain ⟨logged₁, given₁, c₁, leads⟩ := calm.call call (by omega) first (fine_ok ())
      rw [sum, ← Nat.add_assoc]
      exact ih leads.calm (by omega) done

/-! ## Installations -/

/-- What an installation that went well leaves: the client has the entries of the snapshot and no
    others, the fence is at its position, the version at the end of the log, and the files of
    the log are as they were. -/
structure Replaced (berth : Berth) (m m' : Mounted Engine) (snapshot : Snapshot) : Prop where
  clients : clients m'.disk m'.item = .ok snapshot.entries
  replicated : replicated m'.disk m'.item = .ok (some snapshot.position)
  version : marker versionKey m'.disk m'.item = .ok (some m'.item.tail)
  log : m'.item.log = m.item.log
  files : ∀ name, m'.disk.find? (berth.place ++ [name]) = m.disk.find? (berth.place ++ [name])

/-- After any calls that all go well, restarts among them, the version covers the log, so that a
    new engine applies none of its records: the client has the same entries as just before. -/
def Endures (m : Mounted Engine) (bound : Nat) : Prop :=
  ∀ (calls : List Call) (n : Mounted Engine) (limit : UInt64), bound + Call.costs calls + 1 < 2 ^ 64 →
    (calls.forM Call.act).perform m = (.ok (), n) → ∃ user n', clients n.disk n.item = .ok user ∧ Covered n ∧
      (Call.restart limit).act.perform n = (.ok (), n') ∧ clients n'.disk n'.item = .ok user ∧ Covered n'

/-- The client's entries are the same before and after a restart of a calm engine. -/
theorem Calm.restart (calm : Calm berth n bound logged given c) (small : bound + 1 < 2 ^ 64) (limit : UInt64) :
    ∃ n', (Call.restart limit).act.perform n = (.ok (), n') ∧ clients n'.disk n'.item = .ok c.user.entries ∧
      Covered n' := by
  have home : (Log.fresh n.item.log.dir limit).dir = n.item.log.dir := rfl
  obtain ⟨n', done, calm', -⟩ := calm.recover small home
  refine ⟨n', ?_, calm'.stands.clients, calm'.covered⟩
  simp only [Call.act, Action.perform_bind, Action.perform_ofStep, reopen, done, Action.perform_pure]

theorem Calm.endures (calm : Calm berth m bound logged given c) : Endures m bound := by
  intro calls n limit small done
  obtain ⟨logged', given', c', calm'⟩ := calm.run calls (by omega) done
  obtain ⟨n', restarted, clients, covered⟩ := calm'.restart small limit
  exact ⟨_, n', calm'.stands.clients, calm'.covered, restarted, clients, covered⟩

/-- Any engine that is up installs a snapshot in ascending order whose keys the store takes, and
    whatever its log held, no record of that time is ever applied again. -/
theorem Stands.install_endures (stands : Stands berth m bound logged given c) {snapshot : Snapshot}
    (ascending : snapshot.entries.Pairwise fun a b => a.1 < b.1)
    (brings : ∀ entry ∈ snapshot.entries, Brings berth.backend entry.1) :
    ∃ m', (Engine.install snapshot).perform m = (.ok (), m') ∧ Replaced berth m m' snapshot ∧ Endures m' bound := by
  have sorted : OrderedMap.Sorted ⟨snapshot.entries⟩ := ascending
  have takes : berth.backend.Takes ⟨snapshot.entries⟩ := by
    intro key value found
    exact brings (key, value) (sorted.get?_eq_some.mp found)
  obtain ⟨m', done, stands', log⟩ := stands.withTail.install rfl sorted takes
  have tail : m'.item.tail = m.item.tail := congrArg Log.position log
  have confined := confined_install (b := berth.backend) snapshot m
  rw [done] at confined
  obtain ⟨kv, holds, -⟩ := stands.bears
  obtain ⟨-, -, -, files⟩ := confined kv holds
  refine ⟨m', done, ⟨stands'.clients, stands'.replicated, ?_, log, files berth.place berth.apart⟩, ?_⟩
  · rw [stands'.marked, tail]
  · exact Calm.endures ⟨stands', stands'.settled (by rw [tail]) (by simp [tail])⟩

/-- An engine over two empty directories puts a value that its store refuses, so that its log
    holds a record behind the version; it takes over a snapshot all the same. -/
theorem Stands.install_endures_after_refusal : ∃ m c, ∃ logged : List LoggedEntry, ∃ given,
    Stands diskBerth m 2 logged given c ∧ logged.length = 1 ∧
      ([([107], [118])] : List (Bytes × Bytes)).Pairwise (fun a b => a.1 < b.1) ∧
      (∀ entry ∈ [(([107] : Bytes), ([118] : Bytes))], Brings diskBerth.backend entry.1) ∧
      ∃ m', (Engine.install ⟨⟨3, 1, 1⟩, 3, 0, [([107], [118])]⟩).perform m = (.ok (), m') ∧
        Replaced diskBerth m m' ⟨⟨3, 1, 1⟩, 3, 0, [([107], [118])]⟩ ∧ Endures m' 2 := by
  obtain ⟨m₀, p, c, -, -, up, lasts⟩ := exists_lived_on_disk
  have refused : ¬ diskBerth.backend.Accepts (Entry.put [] [118]).key := fun names => names.1 rfl
  obtain ⟨m, -, stands, -⟩ := (lasts.stands up).change_refused (by decide) refused (by decide)
  have ascending : ([([107], [118])] : List (Bytes × Bytes)).Pairwise (fun a b => a.1 < b.1) := by simp
  have brings : ∀ entry ∈ [(([107] : Bytes), ([118] : Bytes))], Brings diskBerth.backend entry.1 := by
    intro entry member
    rw [List.mem_singleton.mp member]
    exact ⟨by decide, by decide, by decide⟩
  have stands : Stands diskBerth m 2 _ _ c := stands
  refine ⟨m, c, _, _, stands, rfl, ascending, brings, ?_⟩
  exact stands.install_endures ascending brings

end Shiplog.Engine
