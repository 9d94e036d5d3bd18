import Shiplog.Proofs.Engines

/-!
Recovery of an engine. Entries applied once more over a state that already has some of
them leave what they would have left alone (`effects_again`), so it does not matter how
far the store has come as long as it is no further behind than its version marker says:
recovery applies the records after the marker and marks the end of the log
(`Rests.recover`), and a second recovery finds nothing to do (`Recovered.again`).
-/
namespace Shiplog
namespace Engine

/-! ## Entries applied again -/

theorem sorted_effects {kv : OrderedMap Bytes Bytes} (sorted : kv.Sorted) (records : List LoggedEntry) :
    (effects records kv).Sorted := by
  induction records generalizing kv with
  | nil => exact sorted
  | cons record rest ih => exact ih (Entry.sorted_effect sorted record.entry)

theorem effects_append (first second : List LoggedEntry) (kv : OrderedMap Bytes Bytes) :
    effects (first ++ second) kv = effects second (effects first kv) := List.foldl_append

/-- Some entries give a key a value of their own, or leave it as it is. -/
theorem get?_effects (records : List LoggedEntry) (key : Bytes) :
    (∃ value, ∀ kv, (effects records kv).get? key = value) ∨ ∀ kv, (effects records kv).get? key = kv.get? key := by
  induction records with
  | nil => exact .inr fun _ => rfl
  | cons record rest ih =>
    rcases ih with ⟨value, sets⟩ | leaves
    · exact .inl ⟨value, fun kv => sets _⟩
    · by_cases same : key = record.entry.key
      · refine .inl ⟨if record.entry.deleted then none else some record.entry.value, fun kv => ?_⟩
        refine (leaves (record.entry.effect kv)).trans ?_
        rw [Entry.get?_effect, if_pos same]
      · refine .inr fun kv => ?_
        refine (leaves (record.entry.effect kv)).trans ?_
        rw [Entry.get?_effect, if_neg same]

theorem effects_twice {kv : OrderedMap Bytes Bytes} (sorted : kv.Sorted) (records : List LoggedEntry) :
    effects records (effects records kv) = effects records kv := by
  have once := sorted_effects sorted records
  refine (sorted_effects once records).ext once fun key => ?_
  rcases get?_effects records key with ⟨value, sets⟩ | leaves
  · rw [sets, sets]
  · rw [leaves]

/-- Entries from any point on, applied over a state that has them up to a later point,
    leave what all of them leave. -/
theorem effects_again {kv : OrderedMap Bytes Bytes} (sorted : kv.Sorted) (records : List LoggedEntry) {k j : Nat}
    (le : k ≤ j) : effects (records.drop k) (effects (records.take j) kv) = effects records kv := by
  obtain ⟨first, middle, last, upTo, onward, all⟩ : ∃ first middle last, records.take j = first ++ middle ∧
      records.drop k = middle ++ last ∧ records = first ++ middle ++ last := by
    obtain ⟨d, rfl⟩ := Nat.exists_eq_add_of_le le
    refine ⟨records.take k, (records.drop k).take d, (records.drop k).drop d, List.take_add,
      (List.take_append_drop d _).symm, ?_⟩
    rw [List.append_assoc, List.take_append_drop, List.take_append_drop]
  have before := sorted_effects sorted first
  calc effects (records.drop k) (effects (records.take j) kv)
      = effects last (effects middle (effects middle (effects first kv))) := by
        rw [upTo, onward, effects_append, effects_append]
    _ = effects last (effects middle (effects first kv)) := by rw [effects_twice before]
    _ = effects records kv := by rw [← effects_append, ← effects_append, ← List.append_assoc, ← all]

/-! ## Applying the records after a position -/

variable {α : Type} {berth : Berth} {m m' : Mounted Engine} {bound : Nat} {logged : List LoggedEntry}
  {given : List Position} {c : Content}

theorem Stands.applyAfter (stands : Stands berth m bound logged given c) (version : Position) {record : LoggedEntry}
    (fits : version < record.position → record.entry.Fits berth.backend) :
    ∃ m', (applyAfter version record.record.1 record.record.2).perform m = (.ok (), m') ∧
      Stands berth m' bound logged given { c with user := effects (later version [record]) c.user } ∧
      m'.item.log = m.item.log := by
  by_cases before : record.position ≤ version
  · refine ⟨m, ?_, ?_, rfl⟩
    · rw [Engine.applyAfter, if_pos (show record.record.1 ≤ version from before)]
      rfl
    · have passed : later version [record] = [] := by
        simpa [later] using Position.not_lt.mpr before
      rw [passed]
      exact stands
  · have fits := fits (Position.not_le.mp before)
    obtain ⟨m', done, stands', log⟩ := stands.apply fits.client fits.accepted
    refine ⟨m', ?_, ?_, log⟩
    · rw [Engine.applyAfter, if_neg (show ¬ record.record.1 ≤ version from before), Action.perform_bind,
        Action.perform_ofExcept]
      have parsed : Entry.layout.parse record.record.2 = .ok record.entry := fits.counted.spells.parse
      rw [parsed]
      exact done
    · have kept : later version [record] = [record] := by
        simpa [later] using Position.not_le.mp before
      rw [kept]
      exact stands'

/-- A scan delivered: the records after the version take effect. -/
theorem Stands.deliver (stands : Stands berth m bound logged given c) (version : Position) (records : List LoggedEntry)
    (fits : ∀ record ∈ records, version < record.position → record.entry.Fits berth.backend) :
    ∃ m', (Scan.deliver ⟨records.map LoggedEntry.record, none⟩ (Engine.applyAfter version)).perform m = (.ok (), m') ∧
      Stands berth m' bound logged given { c with user := effects (later version records) c.user } ∧
      m'.item.log = m.item.log := by
  induction records generalizing m c with
  | nil => exact ⟨m, rfl, stands, rfl⟩
  | cons record rest ih =>
    obtain ⟨m₁, first, stands₁, log₁⟩ := stands.applyAfter version (fits record List.mem_cons_self)
    obtain ⟨m₂, done, stands₂, log₂⟩ := ih stands₁ fun r member => fits r (List.mem_cons_of_mem record member)
    refine ⟨m₂, ?_, ?_, log₂.trans log₁⟩
    · rw [List.map_cons, Scan.perform_deliver_cons, first]
      exact done
    · have parts : later version (record :: rest) = later version [record] ++ later version rest := by
        rw [later, later, later, ← List.filter_append, List.singleton_append]
      rw [parts, effects_append]
      exact stands₂

/-! ## Recovery -/

/-- An engine over a berth, up or not: the directory of its log has the records, and its
    store bears some content. -/
structure Rests (berth : Berth) (m : Mounted Engine) (bound : Nat) (logged : List LoggedEntry) (given : List Position)
    (c : Content) : Prop where
  sameDir : m.item.log.dir = berth.dir
  dormant : Dormant m.disk berth.dir berth.place bound (logged.map LoggedEntry.record) given
  bears : berth.backend.Bears m.disk m.item.store c

theorem Stands.rests (stands : Stands berth m bound logged given c) : Rests berth m bound logged given c := by
  have dormant := stands.journal.dormant
  have sameDir : (logOf m).item.dir = berth.dir := stands.sameDir
  rw [sameDir] at dormant
  exact ⟨stands.sameDir, dormant, stands.bears⟩

theorem Rests.perform_mount (rests : Rests berth m bound logged given c) (small : bound + 1 < 2 ^ 64) :
    ∃ log, Log.mount.perform (logOf m) = (.ok log.item.position, log) ∧
      Journal log berth.place (bound + 1) (logged.map LoggedEntry.record) (given ++ [log.item.position]) ∧
      Tail.Within berth.place (Log.tailOf (logOf m)) (Log.tailOf log) := by
  have dormant : Dormant (logOf m).disk (logOf m).item.dir berth.place bound (logged.map LoggedEntry.record) given := by
    have sameDir : (logOf m).item.dir = berth.dir := rests.sameDir
    rw [sameDir]
    exact rests.dormant
  exact dormant.mount small

/-- Where recovery starts to apply: at the version, or at the end of the log if that is
    before. -/
def resume (version : Option Position) (tail : Position) : Position :=
  if tail < version.getD .start then tail else version.getD .start

theorem later_resume {tail : Position} (within : ∀ r ∈ logged, r.position ≤ tail) (version : Option Position) :
    later (resume version tail) logged = later (version.getD .start) logged := by
  unfold resume
  split
  · rename_i past
    rw [later_eq_nil within, later_eq_nil fun r member => Position.le_trans (within r member) (Position.le_of_lt past)]
  · rfl

/-- Marking a version once more changes nothing. -/
theorem Stands.setVersion_again (stands : Stands berth m bound logged given c) {p : Position}
    (once : (setMarker versionKey p).perform m = (.ok (), m')) (log : Log) :
    ∃ t, (setMarker versionKey p).perform ⟨m'.disk, ⟨log, m'.item.store⟩⟩ = (.ok (), ⟨t, ⟨log, m'.item.store⟩⟩) ∧
      FileTree.Same m'.disk t := by
  obtain ⟨kv, holds, -⟩ := stands.bears
  rw [setMarker, perform_onStore] at once
  have wrote : (Store.put versionKey (Position.layout.write p)).perform (storeOf m) = (.ok (), storeOf m') := by
    have left : storeOf m' = ((Store.put versionKey (Position.layout.write p)).perform (storeOf m)).2 := by
      rw [← show _ = m' from congrArg Prod.snd once]
      rfl
    have answer : ((Store.put versionKey (Position.layout.write p)).perform (storeOf m)).1 = .ok () :=
      congrArg Prod.fst once
    rw [left]
    exact Prod.ext answer rfl
  obtain ⟨m'', again, same, still⟩ := holds.put_twice berth.backend.accepts_versionKey wrote
  refine ⟨m''.disk, ?_, still⟩
  rw [setMarker, perform_onStore]
  have here : storeOf ⟨m'.disk, (⟨log, m'.item.store⟩ : Engine)⟩ = storeOf m' := rfl
  rw [here, again, same]
  rfl

/-- The steps of a recovery that goes well. -/
theorem perform_recover {m₁ m₂ : Mounted Engine} {tail marked : Position}
    (mount : (onLog Log.mount).perform m = (.ok tail, m₁)) (read : version m₁.disk m₁.item = .ok marked)
    (deliver : (Scan.deliver (m₁.item.log.scan m₁.disk (if tail < marked then tail else marked))
      (Engine.applyAfter (if tail < marked then tail else marked))).perform m₁ = (.ok (), m₂))
    (mark : (setMarker versionKey tail).perform m₂ = (.ok (), m')) : recover.perform m = (.ok tail, m') := by
  simp only [Engine.recover, Action.perform_bind, mount, Mounted.perform_reading, read, deliver, mark, Action.perform_pure]

/-- An engine that has marked the end of its log finds nothing to do when it recovers, and
    a new engine in its place does not either. -/
theorem Stands.recover_again (stands : Stands berth m bound logged given c)
    (marked : (setMarker versionKey m.item.tail).perform m = (.ok (), m')) (small : bound + 1 < 2 ^ 64) (log : Log)
    (sameDir : log.dir = berth.dir) :
    ∃ t log', recover.perform ⟨m'.disk, ⟨log, m'.item.store⟩⟩ = (.ok m.item.tail, ⟨t, ⟨log', m'.item.store⟩⟩) ∧
      FileTree.Same m'.disk t := by
  obtain ⟨m₁, done, stands', sameLog⟩ := stands.setVersion m.item.tail
  obtain rfl : m₁ = m' := by
    rw [marked] at done
    exact (congrArg Prod.snd done).symm
  have home : log.dir = (logOf m₁).item.dir := sameDir.trans stands'.sameDir.symm
  obtain ⟨log', mount, journal, position, -⟩ := stands'.journal.mount home small
  obtain ⟨t, again, still⟩ := stands.setVersion_again marked log'
  have tail : (logOf m₁).item.position = m.item.tail := congrArg Log.position sameLog
  rw [tail] at mount position
  have mounted : (onLog Log.mount).perform ⟨m₁.disk, ⟨log, m₁.item.store⟩⟩ =
      (.ok m.item.tail, ⟨m₁.disk, ⟨log', m₁.item.store⟩⟩) :=
    perform_onLog_of (m := ⟨m₁.disk, ⟨log, m₁.item.store⟩⟩) mount
  have read : Engine.version m₁.disk ⟨log', m₁.item.store⟩ = .ok m.item.tail := stands'.version
  have nothing : Log.scan m₁.disk log' m.item.tail = ⟨[], none⟩ := by
    rw [Log.scan, Scan.read, if_pos position.symm]
  refine ⟨t, log', perform_recover mounted read ?_ again, still⟩
  rw [if_neg (Position.lt_irrefl _), nothing]
  rfl

/-- Recovery succeeds from a version that the log has given out, or from one past the end
    of the log, if the store takes the records after it: these take effect, and the end of the
    log is marked. Recovery once more, by this engine or a new one, changes nothing. -/
theorem Rests.recover_later (rests : Rests berth m bound logged given c) (small : bound + 1 < 2 ^ 64)
    (fits : ∀ record ∈ logged, c.version.getD .start < record.position → record.entry.Fits berth.backend)
    {tail : Position} {log : Mounted Log} (mount : Log.mount.perform (logOf m) = (.ok tail, log))
    (known : ∀ p, c.version = some p → p ∈ given ∨ tail < p) :
    ∃ m', recover.perform m = (.ok tail, m') ∧
      Stands berth m' (bound + 1) logged (given ++ [tail])
        ⟨effects (later (c.version.getD .start) logged) c.user, some tail, c.replicated⟩ ∧
      m'.item.tail = tail ∧
      (bound + 2 < 2 ^ 64 → ∀ log : Log, log.dir = berth.dir → ∃ t log',
        recover.perform ⟨m'.disk, ⟨log, m'.item.store⟩⟩ = (.ok tail, ⟨t, ⟨log', m'.item.store⟩⟩) ∧
          FileTree.Same m'.disk t) := by
  obtain ⟨m₁, done, journal, within⟩ := rests.perform_mount small
  rw [done] at mount
  obtain ⟨rfl, rfl⟩ : m₁.item.position = tail ∧ m₁ = log := by simpa using mount
  have mounted : (onLog Log.mount).perform m = (.ok m₁.item.position, ⟨m₁.disk, { m.item with log := m₁.item }⟩) := by
    rw [perform_onLog, done]
  have stands₁ : Stands berth ⟨m₁.disk, { m.item with log := m₁.item }⟩ (bound + 1) logged (given ++ [m₁.item.position]) c :=
    ⟨journal, within.dir.trans rests.sameDir, rests.bears.kept berth.apart journal.sound within.changes⟩
  have given' : resume c.version m₁.item.position = .start ∨
      resume c.version m₁.item.position ∈ given ++ [m₁.item.position] := by
    unfold resume
    split
    · exact .inr (by simp)
    · rename_i within
      cases version : c.version with
      | none => exact .inl rfl
      | some p =>
        rw [version] at within
        rcases known p version with member | past
        · exact .inr (List.mem_append_left _ member)
        · exact absurd past within
  have inside : resume c.version m₁.item.position ≤ m₁.item.position := by
    unfold resume
    split
    · exact Position.le_refl _
    · rename_i within
      exact Position.not_lt.mp within
  obtain ⟨skipped, kept, parts, early, scan⟩ := journal.scan given' inside
  obtain ⟨old, new, rfl, rfl, rfl⟩ := List.map_eq_append_iff.mp parts
  have passed : ∀ r ∈ old, r.position ≤ resume c.version m₁.item.position :=
    fun r member => early r.record (List.mem_map_of_mem member)
  have fits' : ∀ r ∈ new, resume c.version m₁.item.position < r.position → r.entry.Fits berth.backend := by
    intro r member late
    have all : r ∈ old ++ new := List.mem_append_right _ member
    unfold resume at late
    split at late
    · exact absurd late (Position.not_lt.mpr (stands₁.sorted.2 r all).2)
    · exact fits r all late
  obtain ⟨m₂, delivered, stands₂, log₂⟩ := stands₁.deliver (resume c.version m₁.item.position) new fits'
  obtain ⟨m₃, marked, stands₃, log₃⟩ := stands₂.setVersion m₁.item.position
  have tail₂ : m₂.item.tail = m₁.item.position := congrArg Log.position log₂
  have tail₃ : m₃.item.tail = m₁.item.position := (congrArg Log.position log₃).trans tail₂
  refine ⟨m₃, perform_recover mounted stands₁.version ?_ marked, ?_, tail₃, fun room log sameDir => ?_⟩
  · have whole : Log.scan m₁.disk m₁.item (resume c.version m₁.item.position) = ⟨new.map LoggedEntry.record, none⟩ := scan
    exact (congrArg (fun s => (Scan.deliver s (Engine.applyAfter (resume c.version m₁.item.position))).perform _)
      whole).trans delivered
  · have within : ∀ r ∈ old ++ new, r.position ≤ m₁.item.position := fun r member => (stands₁.sorted.2 r member).2
    rw [← later_resume within, later_append_of_le passed]
    exact stands₃
  · rw [← tail₂] at marked ⊢
    exact stands₂.recover_again marked room log sameDir

/-- Recovery of an engine whose store takes every record of its log. -/
theorem Rests.recover (rests : Rests berth m bound logged given c) (small : bound + 1 < 2 ^ 64)
    (fits : ∀ record ∈ logged, record.entry.Fits berth.backend) {tail : Position} {log : Mounted Log}
    (mount : Log.mount.perform (logOf m) = (.ok tail, log))
    (known : ∀ p, c.version = some p → p ∈ given ∨ tail < p) :
    ∃ m', recover.perform m = (.ok tail, m') ∧
      Stands berth m' (bound + 1) logged (given ++ [tail])
        ⟨effects (later (c.version.getD .start) logged) c.user, some tail, c.replicated⟩ ∧
      m'.item.tail = tail ∧
      (bound + 2 < 2 ^ 64 → ∀ log : Log, log.dir = berth.dir → ∃ t log',
        recover.perform ⟨m'.disk, ⟨log, m'.item.store⟩⟩ = (.ok tail, ⟨t, ⟨log', m'.item.store⟩⟩) ∧
          FileTree.Same m'.disk t) :=
  rests.recover_later small (fun record member _ => fits record member) mount known

/-- An engine over an empty directory comes up. -/
theorem exists_recovered :
    ∃ m p, recover.perform ⟨.empty, ⟨.fresh [""] 8192, .memory ⟨.empty, 0⟩⟩⟩ = (.ok p, m) ∧
      Stands ⟨[""], [], .memory, trivial⟩ m 1 [] [p] ⟨.empty, some p, none⟩ ∧ m.item.tail = p := by
  have hosts : FileTree.empty.Hosts [""] [] Segment.nameWidth := ⟨rfl, rfl, by decide⟩
  have rests : Rests ⟨[""], [], .memory, trivial⟩ ⟨.empty, ⟨.fresh [""] 8192, .memory ⟨.empty, 0⟩⟩⟩ 0 [] []
      ⟨.empty, none, none⟩ := ⟨rfl, .nil .empty hosts rfl, .empty, ⟨⟨0, rfl⟩, .empty⟩, rfl, rfl, rfl⟩
  obtain ⟨log, mount, -⟩ := rests.perform_mount (by decide)
  obtain ⟨m, done, stands, tail, -⟩ := rests.recover (by decide) (by simp) mount (by simp)
  exact ⟨m, _, done, stands, tail⟩

theorem exists_stands :
    ∃ m p, Stands ⟨[""], [], .memory, trivial⟩ m 1 [] [p] ⟨.empty, some p, none⟩ ∧ m.item.tail = p := by
  obtain ⟨m, p, -, stands, tail⟩ := exists_recovered
  exact ⟨m, p, stands, tail⟩

end Engine
end Shiplog
