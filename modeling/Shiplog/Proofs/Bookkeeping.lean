import Shiplog.Proofs.Calls

/-!
What an engine keeps besides the client's entries. From an empty directory and an empty
store, calls lead to engines (`Called`) whose store has no bookkeeping key but the two
markers, of which the version covers every record of the log (`Called.calm`). So a snapshot
covers all that is logged, and has exactly the client's entries; and of all calls only an
installation takes the fence back (`Called.bookkept`).
-/
namespace Shiplog

/-- A value is read just when the store holds it. -/
theorem Backend.Holds.get_eq_some {b : Backend} {t : FileTree} {store : Store} {kv : OrderedMap Bytes Bytes}
    (holds : b.Holds t store kv) {key value : Bytes} :
    Store.get t store key = .ok (some value) ↔ kv.get? key = some value := by
  by_cases accepts : b.Accepts key
  · rw [holds.get accepts, Except.ok.injEq]
  · refine iff_of_false (fun read => ?_) fun found => accepts (holds.accepts found)
    cases b with
    | memory => exact accepts trivial
    | disk dir place =>
      obtain ⟨rfl, -⟩ := holds
      rw [Store.get, DiskStore.get, DiskStore.keyPath_refused dir accepts] at read
      cases read

namespace Engine

variable {b : Backend} {berth : Berth} {m m' : Mounted Engine} {bound : Nat} {logged : List LoggedEntry}
  {given : List Position} {c : Content}

/-! ## The bookkeeping keys of a store -/

/-- The store has no bookkeeping key but the markers. -/
def Tidy (b : Backend) (m : Mounted Engine) : Prop :=
  ∃ kv, b.Holds m.disk m.item.store kv ∧
    ∀ key, isReserved key = true → key ≠ versionKey → key ≠ replicatedKey → kv.get? key = none

theorem Tidy.spared (tidy : Tidy b m) (spares : Spares b m m') : Tidy b m' := by
  obtain ⟨kv, holds, only⟩ := tidy
  obtain ⟨kv', holds', same⟩ := spares kv holds
  exact ⟨kv', holds', fun key reserved version fence =>
    (same key reserved version fence).trans (only key reserved version fence)⟩

/-- An engine over an empty directory and an empty store comes up calm. -/
theorem exists_calm {t : FileTree} {store : Store} (sound : t.Sound)
    (hosts : t.Hosts berth.dir berth.place Segment.nameWidth) (empty : t.children berth.place = [])
    (holds : berth.backend.Holds t store .empty) (limit : UInt64) :
    ∃ m, Engine.recover.perform ⟨t, ⟨.fresh berth.dir limit, store⟩⟩ = (.ok m.item.tail, m) ∧
      Calm berth m 1 [] [m.item.tail] ⟨.empty, some m.item.tail, none⟩ ∧ Tidy berth.backend m := by
  have rests : Rests berth ⟨t, ⟨.fresh berth.dir limit, store⟩⟩ 0 [] [] ⟨.empty, none, none⟩ :=
    ⟨rfl, .nil sound hosts empty, .empty, holds, rfl, rfl, rfl⟩
  obtain ⟨log, mount, journal, within⟩ := rests.perform_mount (by decide)
  have kept : berth.backend.Holds log.disk store .empty := holds.kept berth.apart journal.sound within.changes
  have stands : Stands berth ⟨log.disk, ⟨log.item, store⟩⟩ 1 [] [log.item.position] ⟨.empty, none, none⟩ :=
    ⟨journal, within.dir, .empty, kept, rfl, rfl, rfl⟩
  obtain ⟨m, marks, stands', same⟩ := stands.setVersion log.item.position
  have tail : m.item.tail = log.item.position := congrArg Log.position same
  have mounted : (onLog Log.mount).perform ⟨t, ⟨.fresh berth.dir limit, store⟩⟩ =
      (.ok log.item.position, ⟨log.disk, ⟨log.item, store⟩⟩) := by
    rw [perform_onLog, mount]
  have nothing : Log.scan log.disk log.item .start = ⟨[], none⟩ := journal.scan_start
  have done := perform_recover mounted stands.version (by
    rw [Option.getD_none, if_neg (Position.not_lt.mpr journal.start_le)]
    exact (congrArg (fun s => (Scan.deliver s (applyAfter .start)).perform _) nothing).trans rfl) marks
  have tidy : Tidy berth.backend ⟨log.disk, ⟨log.item, store⟩⟩ := ⟨.empty, kept, fun _ _ _ _ => rfl⟩
  have moved := confined_setMarker (b := berth.backend) (.inl rfl) log.item.position ⟨log.disk, ⟨log.item, store⟩⟩
  rw [marks] at moved
  rw [← tail] at done stands'
  exact ⟨m, done, ⟨stands', stands'.settled rfl (by simp)⟩, tidy.spared moved.spares⟩

/-! ## Engines that calls lead to -/

/-- The engines that fine calls lead to from an empty directory and an empty store. The pages
    written and the files created are counted. -/
inductive Called (berth : Berth) : Mounted Engine → Nat → Prop where
  | begin {t store limit tail m} (sound : t.Sound) (hosts : t.Hosts berth.dir berth.place Segment.nameWidth)
      (empty : t.children berth.place = []) (holds : berth.backend.Holds t store .empty)
      (done : Engine.recover.perform ⟨t, ⟨.fresh berth.dir limit, store⟩⟩ = (.ok tail, m)) : Called berth m 1
  | call {m m' bound answer} (called : Called berth m bound) (call : Call) (done : call.act.perform m = (answer, m'))
      (fine : Fine answer) : Called berth m' (bound + call.cost)

theorem Called.calm (called : Called berth m bound) (small : bound < 2 ^ 64) :
    ∃ logged given c, Calm berth m bound logged given c ∧ Tidy berth.backend m := by
  induction called with
  | begin sound hosts empty holds done =>
    obtain ⟨m₀, came, calm, tidy⟩ := exists_calm sound hosts empty holds _
    rw [done] at came
    cases came
    exact ⟨_, _, _, calm, tidy⟩
  | call called call done fine ih =>
    obtain ⟨logged, given, c, calm, tidy⟩ := ih (by omega)
    obtain ⟨logged', given', c', leads⟩ := calm.call call small done fine
    exact ⟨logged', given', c', leads.calm, tidy.spared leads.spares⟩

/-- What holds of the bookkeeping of an engine. -/
structure Bookkept (m : Mounted Engine) (bound : Nat) : Prop where
  covered : Covered m
  /-- The store has no bookkeeping key but the markers, and what it has of these can be read. -/
  markers : ∃ all, entries m.disk m.item = .ok all ∧ ∀ key value, (key, value) ∈ all → isReserved key = true →
    (key = versionKey ∨ key = replicatedKey) ∧ ∃ p, Position.layout.parse value = .ok p
  /-- A snapshot is taken at the version, behind every record of the log. It has the client's
      entries in ascending order. -/
  snapshots : ∀ term now, ∃ p user records, snapshot term now m.disk m.item = .ok ⟨p, term, now, user⟩ ∧
    version m.disk m.item = .ok p ∧ m.item.log.scan m.disk .start = ⟨records, none⟩ ∧
    (∀ record ∈ records, record.1 ≤ p) ∧ (user.Pairwise fun a b => a.1 < b.1) ∧
    ∀ key value, (key, value) ∈ user ↔ isReserved key = false ∧ Engine.get m.disk m.item key = .ok (some value)
  /-- The fence moves forward, or an installation sets it. -/
  fence : ∀ (call : Call) (answer : Except Error Unit) (m' : Mounted Engine), bound + call.cost < 2 ^ 64 →
    call.act.perform m = (answer, m') → Fine answer →
    ∃ f f', replicated m.disk m.item = .ok f ∧ replicated m'.disk m'.item = .ok f' ∧
      (Advances f f' ∨ ∃ snapshot, call = .install snapshot ∧ answer = .ok () ∧ f' = some snapshot.position)

/-- A bookkeeping key that a tidy store has is a marker, and is read as one. -/
theorem Calm.markers (calm : Calm berth m bound logged given c) (tidy : Tidy berth.backend m) :
    ∃ all, entries m.disk m.item = .ok all ∧ ∀ key value, (key, value) ∈ all → isReserved key = true →
      (key = versionKey ∨ key = replicatedKey) ∧ ∃ p, Position.layout.parse value = .ok p := by
  obtain ⟨kv, holds, only⟩ := tidy
  have version := calm.stands.bears.version
  have replicated := calm.stands.bears.replicated
  rw [holds.get berth.backend.accepts_versionKey, Except.ok.injEq] at version
  rw [holds.get berth.backend.accepts_replicatedKey, Except.ok.injEq] at replicated
  -- Whatever a marker's key has was written as a position.
  have written : ∀ {value : Bytes} {p : Option Position}, p.map Position.layout.write = some value →
      ∃ p, Position.layout.parse value = .ok p := by
    intro value p same
    obtain ⟨q, -, rfl⟩ := Option.map_eq_some_iff.mp same
    exact ⟨q, (Position.spells q).parse⟩
  refine ⟨kv.entries, holds.entries, fun key value member reserved => ?_⟩
  have found : kv.get? key = some value := holds.sorted.get?_eq_some.mpr member
  by_cases first : key = versionKey
  · subst first
    exact ⟨.inl rfl, written (version.symm.trans found)⟩
  · by_cases second : key = replicatedKey
    · subst second
      exact ⟨.inr rfl, written (replicated.symm.trans found)⟩
    · rw [only key reserved first second] at found
      cases found

theorem Calm.snapshots (calm : Calm berth m bound logged given c) (term now : UInt64) :
    ∃ p user records, snapshot term now m.disk m.item = .ok ⟨p, term, now, user⟩ ∧ version m.disk m.item = .ok p ∧
      m.item.log.scan m.disk .start = ⟨records, none⟩ ∧ (∀ record ∈ records, record.1 ≤ p) ∧
      (user.Pairwise fun a b => a.1 < b.1) ∧
      ∀ key value, (key, value) ∈ user ↔ isReserved key = false ∧ Engine.get m.disk m.item key = .ok (some value) := by
  obtain ⟨p, records, version, -, scan, covers, -⟩ := calm.covered
  obtain ⟨kv, holds, -⟩ := calm.stands.bears
  have sorted := sorted_userPart holds.sorted
  refine ⟨p, (userPart kv).entries, records, ?_, version, scan, covers, sorted, fun key value => ?_⟩
  · have all : entries m.disk m.item = .ok kv.entries := holds.entries
    rw [snapshot, version, all]
    rfl
  · rw [Engine.get, holds.get_eq_some, ← sorted.get?_eq_some, get?_userPart holds.sorted]
    cases isReserved key <;> simp

/-- Fine calls keep the bookkeeping in order. -/
theorem Called.bookkept (called : Called berth m bound) (small : bound < 2 ^ 64) : Bookkept m bound := by
  obtain ⟨logged, given, c, calm, tidy⟩ := called.calm small
  refine ⟨calm.covered, calm.markers tidy, calm.snapshots, fun call answer m' room done fine => ?_⟩
  obtain ⟨logged', given', c', leads⟩ := calm.call call room done fine
  exact ⟨c.replicated, c'.replicated, calm.stands.replicated, leads.calm.stands.replicated, leads.fence⟩

/-- A record list that is refused at its second record. -/
def halfReserved : List LoggedEntry := [⟨⟨1, 1, 1⟩, .put [107] [118]⟩, ⟨⟨1, 1, 2⟩, .put bookkeeping [120]⟩]

/-- An engine in memory applies the first record of the list and refuses the second. -/
theorem Called.bookkept_half_replayed : ∃ m₀ m, Called ⟨[""], [], .memory, trivial⟩ m₀ 1 ∧
    (Call.replay halfReserved).act.perform m₀ = (.error .reservedKey, m) ∧
      Called ⟨[""], [], .memory, trivial⟩ m (1 + (Call.replay halfReserved).cost) ∧
      1 + (Call.replay halfReserved).cost < 2 ^ 64 ∧ clients m.disk m.item = .ok [([107], [118])] ∧
      Bookkept m (1 + (Call.replay halfReserved).cost) := by
  have hosts : FileTree.empty.Hosts [""] [] Segment.nameWidth := ⟨rfl, rfl, by decide⟩
  have holds : Backend.memory.Holds FileTree.empty (.memory ⟨.empty, 0⟩) .empty := ⟨⟨0, rfl⟩, .empty⟩
  obtain ⟨m₀, came, calm, -⟩ := @exists_calm ⟨[""], [], .memory, trivial⟩ _ _ .empty hosts rfl holds 8192
  have begun : Called ⟨[""], [], .memory, trivial⟩ m₀ 1 := .begin .empty hosts rfl holds came
  have client : isReserved (Entry.put [107] [118]).key = false := by decide
  obtain ⟨m₁, logs, stands₁, -⟩ := calm.stands.logAndApply client trivial (by decide)
  obtain ⟨m, marks, stands, -⟩ := stands₁.setReplicated ⟨1, 1, 1⟩
  have done : (Call.replay halfReserved).act.perform m₀ = (.error .reservedKey, m) := by
    have first : checkKey [107] = .ok () := by decide
    have second : checkKey bookkeeping = .error .reservedKey := by decide
    have past : ¬ (⟨1, 1, 2⟩ : Position) ≤ ⟨1, 1, 1⟩ := by decide
    simp [Call.act, Engine.replay, halfReserved, Engine.replayFrom, Action.perform_bind, calm.stands.replicated,
      Entry.put, first, show (Engine.logAndApply ⟨[107], [118], false⟩).perform m₀ = _ from logs, marks, second, past]
  have called := begun.call _ done fine_reserved
  exact ⟨m₀, m, begun, done, called, by decide, stands.clients, called.bookkept (by decide)⟩

end Engine
end Shiplog
