import Shiplog.Proofs.Pairs

/-!
The writer of an engine. It logs an entry, applies it and marks its position, each in a
step of its own (`Writer.Step`). The log holds the records it has written and the store has the
effect of all of them but perhaps the last (`Writer.Held`); what was read of them stays true
as it writes on (`Writer.Grows`). If the version marker covers the log at first, it lags
behind by one record at most (`Writer.Sound`).
-/
namespace Shiplog

namespace Writing

/-- The record that is being written, until it is shipped. -/
def record? : Writing → Option LoggedEntry
  | logged record | applied record | marked record => some record
  | idle | shipping => none

/-- How many records are logged and not yet applied. -/
def unapplied : Writing → Nat
  | logged _ => 1
  | _ => 0

/-- How many records are logged while the version does not cover them yet. -/
def unmarked : Writing → Nat
  | logged _ | applied _ => 1
  | _ => 0

/-- How many records are logged and not yet shipped. -/
def unshipped : Writing → Nat
  | logged _ | applied _ | marked _ => 1
  | _ => 0

end Writing

/-- What a writer starts from. -/
structure Origin where
  berth : Berth
  /-- The records in the log at first. -/
  before : List LoggedEntry
  /-- The client's entries in the store at first. -/
  user : OrderedMap Bytes Bytes

/-- An engine that is written to, with an account of what was written. -/
structure Writer where
  engine : Mounted Engine
  writing : Writing
  written : List LoggedEntry
  /-- The positions that the log has given out. -/
  given : List Position
  pages : Nat

namespace Writer

open Engine (Stands effects)

/-- How many records have taken effect. -/
def applied (w : Writer) : Nat := w.written.length - w.writing.unapplied

/-- How many records the version covers. -/
def marked (w : Writer) : Nat := w.written.length - w.writing.unmarked

theorem marked_le_applied (w : Writer) : w.marked ≤ w.applied := by
  unfold marked applied
  cases w.writing <;> simp [Writing.unmarked, Writing.unapplied]

theorem applied_le (w : Writer) : w.applied ≤ w.written.length := Nat.sub_le _ _

variable (o : Origin)

/-- A position that the first of the records lie behind and the others in front of. -/
def Covers (written : List LoggedEntry) (p : Position) (k : Nat) : Prop :=
  (∀ r ∈ o.before ++ written.take k, r.position ≤ p) ∧ ∀ r ∈ written.drop k, p < r.position

/-- A change of the engine, part by part. -/
inductive Step (w : Writer) : Writer → Prop where
  | log {entry engine p} (idle : w.writing = .idle) (fits : entry.Fits o.berth.backend)
      (done : (Engine.onLog (Log.write (Entry.layout.write entry))).perform w.engine = (.ok p, engine)) :
      Step w { w with
        engine
        writing := .logged ⟨p, entry⟩
        written := w.written ++ [⟨p, entry⟩]
        given := w.given ++ [p]
        pages := w.pages + entry.pages }
  | apply {record engine} (next : w.writing = .logged record)
      (done : (Engine.apply record.entry).perform w.engine = (.ok (), engine)) :
      Step w { w with engine, writing := .applied record }
  | mark {record engine} (next : w.writing = .applied record)
      (done : (Engine.setMarker Engine.versionKey record.position).perform w.engine = (.ok (), engine)) :
      Step w { w with engine, writing := .marked record }
  | rest {record} (next : w.writing = .marked record) : Step w { w with writing := .idle }

variable {o} {w w' : Writer}

/-- A part of a change that is not its last. -/
def Onward (o : Origin) (w w' : Writer) : Prop := Step o w w' ∧ w'.writing ≠ .idle

/-- A change of the engine, taken apart, until it is marked. -/
theorem mark_runs {entry : Entry} {p : Position} {engine : Mounted Engine} (idle : w.writing = .idle)
    (fits : entry.Fits o.berth.backend) (done : (Engine.change entry).perform w.engine = (.ok p, engine)) :
    ∃ w', Relation.ReflTransGen (Onward o) w w' ∧ w'.engine = engine ∧ w'.writing = .marked ⟨p, entry⟩ ∧
      w'.written = w.written ++ [⟨p, entry⟩] ∧ w'.pages = w.pages + entry.pages := by
  obtain ⟨m₁, m₂, logged, applied, marked⟩ := Engine.change_eq_ok done
  have toLogged := Relation.ReflTransGen.single (r := Onward o) ⟨Step.log idle fits logged, by simp⟩
  have toMarked := (toLogged.tail ⟨.apply rfl applied, by simp⟩).tail ⟨.mark rfl marked, by simp⟩
  exact ⟨_, toMarked, rfl, rfl, rfl, rfl⟩

/-- A change of the engine, taken apart. -/
theorem change_runs {entry : Entry} {p : Position} {engine : Mounted Engine} (idle : w.writing = .idle)
    (fits : entry.Fits o.berth.backend) (done : (Engine.change entry).perform w.engine = (.ok p, engine)) :
    ∃ w', Relation.ReflTransGen (Step o) w w' ∧ w'.engine = engine ∧ w'.writing = .idle ∧
      w'.written = w.written ++ [⟨p, entry⟩] := by
  obtain ⟨w', steps, changed, next, written, -⟩ := mark_runs idle fits done
  have toMarked := Relation.ReflTransGen.mono (fun _ _ onward => onward.1) w w' steps
  exact ⟨_, toMarked.tail (.rest next), changed, rfl, written⟩

/-- What happens to the log leaves the records that are there. -/
structure Grows (w w' : Writer) : Prop where
  written : ∃ new, w'.written = w.written ++ new ∧ ∀ r ∈ new, w.engine.item.tail < r.position
  given : w.given ⊆ w'.given
  tail : w.engine.item.tail ≤ w'.engine.item.tail
  applied : w.applied ≤ w'.applied

theorem grows_of_same (written : w'.written = w.written) (given : w'.given = w.given)
    (log : w'.engine.item.log = w.engine.item.log) (applied : w.applied ≤ w'.applied) : Grows w w' where
  written := ⟨[], by simp [written], by simp⟩
  given := by
    rw [given]
    exact List.Subset.refl _
  tail := .inr (congrArg Log.position log).symm
  applied := applied

theorem Grows.trans {w'' : Writer} (first : Grows w w') (second : Grows w' w'') : Grows w w'' where
  written := by
    obtain ⟨new, same, later⟩ := first.written
    obtain ⟨new', same', later'⟩ := second.written
    refine ⟨new ++ new', by rw [same', same, List.append_assoc], ?_⟩
    intro r member
    rcases List.mem_append.mp member with old | fresh
    · exact later r old
    · exact Position.lt_of_le_of_lt first.tail (later' r fresh)
  given := List.Subset.trans first.given second.given
  tail := Position.le_trans first.tail second.tail
  applied := Nat.le_trans first.applied second.applied

theorem Grows.length (grows : Grows w w') : w.written.length ≤ w'.written.length := by
  obtain ⟨new, same, -⟩ := grows.written
  rw [same, List.length_append]
  exact Nat.le_add_right _ _

theorem Grows.take (grows : Grows w w') {k : Nat} (le : k ≤ w.written.length) :
    w'.written.take k = w.written.take k := by
  obtain ⟨new, same, -⟩ := grows.written
  rw [same, List.take_append_of_le_length le]

theorem Grows.covers (grows : Grows w w') {p : Position} {k : Nat} (covers : Covers o w.written p k)
    (within : p ≤ w.engine.item.tail) (le : k ≤ w.written.length) : Covers o w'.written p k := by
  obtain ⟨new, same, later⟩ := grows.written
  constructor
  · rw [grows.take le]
    exact covers.1
  · intro r member
    rw [same, List.drop_append_of_le_length le] at member
    rcases List.mem_append.mp member with old | fresh
    · exact covers.2 r old
    · exact Position.lt_of_le_of_lt within (later r fresh)

/-! ## The engine -/

/-- What holds of an engine between the parts of its changes, whatever its version. -/
structure Held (o : Origin) (w : Writer) (version replicated : Option Position) : Prop where
  fits : ∀ r ∈ w.written, r.entry.Fits o.berth.backend
  given : ∀ r ∈ w.written, r.position ∈ w.given
  last : ∀ r, w.writing.record? = some r → w.written.getLast? = some r
  stands : Stands o.berth w.engine w.pages (o.before ++ w.written) w.given
    ⟨effects (w.written.take w.applied) o.user, version, replicated⟩

variable {version replicated : Option Position}

theorem Held.log (held : Held o w version replicated) {entry : Entry} {p : Position} {m : Mounted Engine}
    (idle : w.writing = .idle) (fits : entry.Fits o.berth.backend)
    (done : (Engine.onLog (Log.write (Entry.layout.write entry))).perform w.engine = (.ok p, m))
    (small : w.pages + entry.pages < 2 ^ 64)
    (same : w' = { w with
      engine := m
      writing := .logged ⟨p, entry⟩
      written := w.written ++ [⟨p, entry⟩]
      given := w.given ++ [p]
      pages := w.pages + entry.pages }) : Held o w' version replicated ∧ Grows w w' := by
  obtain ⟨m', wrote, stands', less, -⟩ := held.stands.log entry small
  obtain ⟨rfl, rfl⟩ : m'.item.tail = p ∧ m' = m := by
    rw [wrote] at done
    simpa using done
  have applied : w'.applied = w.applied := by simp [Writer.applied, same, idle, Writing.unapplied]
  have grows : Grows w w' := by
    constructor
    · refine ⟨[⟨m'.item.tail, entry⟩], by rw [same], ?_⟩
      intro r member
      rw [List.mem_singleton.mp member]
      exact less
    · rw [same]
      exact List.subset_append_left _ _
    · rw [same]
      exact Position.le_of_lt less
    · exact Nat.le_of_eq applied.symm
  refine ⟨?_, grows⟩
  constructor
  case fits =>
    intro r member
    rw [same] at member
    rcases List.mem_append.mp member with old | new
    · exact held.fits r old
    · rw [List.mem_singleton.mp new]
      exact fits
  case given =>
    intro r member
    rw [same] at member ⊢
    rcases List.mem_append.mp member with old | new
    · exact List.mem_append_left _ (held.given r old)
    · rw [List.mem_singleton.mp new]
      exact List.mem_append_right _ List.mem_cons_self
  case last =>
    intro r record
    rw [same] at record ⊢
    simp only [Writing.record?, Option.some.injEq] at record
    rw [List.getLast?_concat, record]
  case stands =>
    rw [applied, grows.take w.applied_le]
    rw [List.append_assoc] at stands'
    rw [same]
    exact stands'

theorem take_pred {written : List LoggedEntry} {r : LoggedEntry} (last : written.getLast? = some r) :
    written = written.take (written.length - 1) ++ [r] := by
  have parts := List.dropLast_append_getLast? r last
  rw [List.dropLast_eq_take] at parts
  exact parts.symm

/-- A change that leaves what is written. -/
theorem Held.moved (held : Held o w version replicated) (written : w'.written = w.written) (given : w'.given = w.given)
    (record : ∀ r, w'.writing.record? = some r → w.writing.record? = some r) {version' replicated' : Option Position}
    (stands : Stands o.berth w'.engine w'.pages (o.before ++ w.written) w.given
      ⟨effects (w.written.take w'.applied) o.user, version', replicated'⟩) : Held o w' version' replicated' where
  fits := by
    rw [written]
    exact held.fits
  given := by
    rw [written, given]
    exact held.given
  last r writing := by
    rw [written]
    exact held.last r (record r writing)
  stands := by
    rw [written, given]
    exact stands

theorem Held.apply (held : Held o w version replicated) {record : LoggedEntry} {m : Mounted Engine}
    (next : w.writing = .logged record) (done : (Engine.apply record.entry).perform w.engine = (.ok (), m))
    (same : w' = { w with engine := m, writing := .applied record }) : Held o w' version replicated ∧ Grows w w' := by
  have last : w.written.getLast? = some record := held.last record (by rw [next]; rfl)
  have fits := held.fits record (List.mem_of_getLast? last)
  obtain ⟨m', applies, stands', log⟩ := held.stands.apply fits.client fits.accepted
  obtain rfl : m' = m := by
    rw [applies] at done
    simpa using done
  have applied : w'.applied = w.written.length := by simp [Writer.applied, same, Writing.unapplied]
  have user : effects (w.written.take w'.applied) o.user =
      record.entry.effect (effects (w.written.take w.applied) o.user) := by
    have one : w.applied = w.written.length - 1 := by rw [Writer.applied, next]; rfl
    rw [applied, one, List.take_length]
    conv_lhs => rw [take_pred last, Engine.effects_append]
    rfl
  constructor
  · refine held.moved (by rw [same]) (by rw [same]) ?_ ?_
    · intro r writing
      rw [next]
      rwa [same] at writing
    · rw [user, same]
      exact stands'
  · refine grows_of_same (by rw [same]) (by rw [same]) (by rw [same, log]) ?_
    rw [applied]
    exact w.applied_le

theorem Held.mark (held : Held o w version replicated) {record : LoggedEntry} {m : Mounted Engine}
    (next : w.writing = .applied record)
    (done : (Engine.setMarker Engine.versionKey record.position).perform w.engine = (.ok (), m))
    (same : w' = { w with engine := m, writing := .marked record }) :
    Held o w' (some record.position) replicated ∧ Grows w w' := by
  obtain ⟨m', marks, stands', log⟩ := held.stands.setVersion record.position
  obtain rfl : m' = m := by
    rw [marks] at done
    simpa using done
  have applied : w'.applied = w.applied := by simp [Writer.applied, same, next, Writing.unapplied]
  constructor
  · refine held.moved (by rw [same]) (by rw [same]) ?_ ?_
    · intro r writing
      rw [next]
      rwa [same] at writing
    · rw [applied, same]
      exact stands'
  · exact grows_of_same (by rw [same]) (by rw [same]) (by rw [same, log]) (Nat.le_of_eq applied.symm)

/-- A change that concerns neither the engine nor its log. -/
theorem Held.kept (held : Held o w version replicated) (engine : w'.engine = w.engine) (written : w'.written = w.written)
    (given : w'.given = w.given) (pages : w'.pages = w.pages) (unapplied : w'.writing.unapplied = w.writing.unapplied)
    (record : ∀ r, w'.writing.record? = some r → w.writing.record? = some r) :
    Held o w' version replicated ∧ Grows w w' := by
  have applied : w'.applied = w.applied := by rw [Writer.applied, Writer.applied, written, unapplied]
  constructor
  · refine held.moved written given record ?_
    rw [engine, pages, applied]
    exact held.stands
  · exact grows_of_same written given (by rw [engine]) (Nat.le_of_eq applied.symm)

/-- A part of a change keeps what holds of the engine, and what was read stays true. -/
theorem Held.step (held : Held o w version replicated) (step : Step o w w') (small : w'.pages < 2 ^ 64) :
    (∃ version', Held o w' version' replicated) ∧ Grows w w' := by
  cases step with
  | log idle fits done =>
    obtain ⟨held', grows⟩ := held.log idle fits done small rfl
    exact ⟨⟨_, held'⟩, grows⟩
  | apply next done =>
    obtain ⟨held', grows⟩ := held.apply next done rfl
    exact ⟨⟨_, held'⟩, grows⟩
  | mark next done =>
    obtain ⟨held', grows⟩ := held.mark next done rfl
    exact ⟨⟨_, held'⟩, grows⟩
  | rest next =>
    obtain ⟨held', grows⟩ : Held o { w with writing := .idle } version replicated ∧ Grows w { w with writing := .idle } :=
      held.kept rfl rfl rfl rfl (by rw [next]; rfl) (by simp [Writing.record?])
    exact ⟨⟨_, held'⟩, grows⟩

/-! ## The version -/

/-- What holds of an engine between the parts of its changes, if its version covered its log at
    first. -/
structure Sound (o : Origin) (w : Writer) : Prop where
  sorted : o.user.Sorted
  counted : ∀ r ∈ o.before, r.entry.Counted
  fits : ∀ r ∈ w.written, r.entry.Fits o.berth.backend
  given : ∀ r ∈ w.written, r.position ∈ w.given
  last : ∀ r, w.writing.record? = some r → w.written.getLast? = some r
  stands : ∃ v replicated, Stands o.berth w.engine w.pages (o.before ++ w.written) w.given
      ⟨effects (w.written.take w.applied) o.user, some v, replicated⟩ ∧
    v ∈ w.given ∧ v ≤ w.engine.item.tail ∧ Covers o w.written v w.marked

theorem Sound.held (sound : Sound o w) : ∃ v replicated, Held o w (some v) replicated ∧
    v ∈ w.given ∧ v ≤ w.engine.item.tail ∧ Covers o w.written v w.marked := by
  obtain ⟨v, replicated, stands, rest⟩ := sound.stands
  exact ⟨v, replicated, ⟨sound.fits, sound.given, sound.last, stands⟩, rest⟩

theorem Sound.of_held (sound : Sound o w) {v : Position} (held : Held o w' (some v) replicated) (known : v ∈ w'.given)
    (within : v ≤ w'.engine.item.tail) (covers : Covers o w'.written v w'.marked) : Sound o w' where
  sorted := sound.sorted
  counted := sound.counted
  fits := held.fits
  given := held.given
  last := held.last
  stands := ⟨v, replicated, held.stands, known, within, covers⟩

theorem Sound.ascending (sound : Sound o w) : ((o.before ++ w.written).map LoggedEntry.position).Pairwise (· < ·) ∧
    ∀ r ∈ o.before ++ w.written, .start < r.position ∧ r.position ≤ w.engine.item.tail := by
  obtain ⟨v, replicated, stands, -⟩ := sound.stands
  exact stands.sorted

theorem Sound.all_counted (sound : Sound o w) : ∀ r ∈ o.before ++ w.written, r.entry.Counted := by
  intro r member
  rcases List.mem_append.mp member with old | new
  · exact sound.counted r old
  · exact (sound.fits r new).counted

/-- The position of a record covers the records up to it. -/
theorem Sound.covers (sound : Sound o w) {r : LoggedEntry} {k : Nat} (here : w.written[k]? = some r) :
    Covers o w.written r.position (k + 1) := by
  have pairs := List.pairwise_map.mp sound.ascending.1
  have upTo : w.written.take (k + 1) = w.written.take k ++ [r] := by
    rw [List.take_add_one, here]
    rfl
  have whole : o.before ++ w.written = (o.before ++ w.written.take k ++ [r]) ++ w.written.drop (k + 1) := by
    rw [List.append_assoc o.before, ← upTo, List.append_assoc, List.take_append_drop]
  rw [whole, List.pairwise_append, List.pairwise_append] at pairs
  obtain ⟨⟨-, -, before⟩, -, after⟩ := pairs
  constructor
  · intro r' member
    rw [upTo, ← List.append_assoc] at member
    rcases List.mem_append.mp member with old | this
    · exact Position.le_of_lt (before r' old r List.mem_cons_self)
    · rw [List.mem_singleton.mp this]
      exact Position.le_refl _
  · intro r' member
    exact after r (List.mem_append_right _ List.mem_cons_self) r' member

/-- The last of the records after a position covers what they reach to. -/
theorem Sound.last_covers (sound : Sound o w) {p : Position} {k n : Nat} (covers : Covers o w.written p k)
    (within : p ≤ w.engine.item.tail) (le : k ≤ n) (length : n ≤ w.written.length) :
    ∃ fence, ((((w.written.take n).drop k).map LoggedEntry.position).getLast?.or (some p)) = some fence ∧
      fence ≤ w.engine.item.tail ∧ Covers o w.written fence n := by
  rw [List.getLast?_map, List.getLast?_drop, List.length_take, Nat.min_eq_left length]
  rcases Nat.lt_or_eq_of_le le with less | rfl
  · have inside : n - 1 < w.written.length := by omega
    have here : w.written[n - 1]? = some w.written[n - 1] := List.getElem?_eq_getElem inside
    rw [if_neg (by omega), List.getLast?_take, if_neg (by omega), here]
    have covers' := sound.covers here
    rw [Nat.sub_add_cancel (by omega)] at covers'
    exact ⟨_, rfl, (sound.ascending.2 _ (List.mem_append_right _ (List.getElem_mem inside))).2, covers'⟩
  · rw [if_pos (Nat.le_refl _)]
    exact ⟨p, rfl, within, covers⟩

/-- A part of a change that leaves the version. -/
theorem Sound.later (sound : Sound o w)
    (part : ∀ v replicated, Held o w (some v) replicated → Held o w' (some v) replicated ∧ Grows w w')
    (marked : w'.marked = w.marked) : Sound o w' ∧ Grows w w' := by
  obtain ⟨v, replicated, held, known, within, covers⟩ := sound.held
  obtain ⟨held', grows⟩ := part v replicated held
  refine ⟨sound.of_held held' (grows.given known) (Position.le_trans within grows.tail) ?_, grows⟩
  rw [marked]
  exact grows.covers covers within (Nat.le_trans w.marked_le_applied w.applied_le)

theorem Sound.log (sound : Sound o w) {entry : Entry} {p : Position} {m : Mounted Engine} (idle : w.writing = .idle)
    (fits : entry.Fits o.berth.backend)
    (done : (Engine.onLog (Log.write (Entry.layout.write entry))).perform w.engine = (.ok p, m))
    (small : w.pages + entry.pages < 2 ^ 64)
    (same : w' = { w with
      engine := m
      writing := .logged ⟨p, entry⟩
      written := w.written ++ [⟨p, entry⟩]
      given := w.given ++ [p]
      pages := w.pages + entry.pages }) : Sound o w' ∧ Grows w w' := by
  refine sound.later (fun v replicated held => held.log idle fits done small same) ?_
  simp [Writer.marked, same, idle, Writing.unmarked]

theorem Sound.apply (sound : Sound o w) {record : LoggedEntry} {m : Mounted Engine} (next : w.writing = .logged record)
    (done : (Engine.apply record.entry).perform w.engine = (.ok (), m))
    (same : w' = { w with engine := m, writing := .applied record }) : Sound o w' ∧ Grows w w' := by
  refine sound.later (fun v replicated held => held.apply next done same) ?_
  simp [Writer.marked, same, next, Writing.unmarked]

theorem Sound.mark (sound : Sound o w) {record : LoggedEntry} {m : Mounted Engine} (next : w.writing = .applied record)
    (done : (Engine.setMarker Engine.versionKey record.position).perform w.engine = (.ok (), m))
    (same : w' = { w with engine := m, writing := .marked record }) : Sound o w' ∧ Grows w w' := by
  obtain ⟨v, replicated, held, -⟩ := sound.held
  obtain ⟨held', grows⟩ := held.mark next done same
  have last : w.written.getLast? = some record := sound.last record (by rw [next]; rfl)
  have member := List.mem_of_getLast? last
  have marked : w'.marked = w.written.length := by simp [Writer.marked, same, Writing.unmarked]
  have covered : Covers o w.written record.position w.written.length := by
    rw [List.getLast?_eq_getElem?] at last
    have upTo := sound.covers last
    rwa [Nat.sub_add_cancel (List.length_pos_of_mem member)] at upTo
  have within := (sound.ascending.2 record (List.mem_append_right _ member)).2
  refine ⟨sound.of_held held' (grows.given (sound.given record member)) (Position.le_trans within grows.tail) ?_, grows⟩
  rw [marked]
  exact grows.covers covered within (Nat.le_refl _)

/-- A change that concerns neither the engine nor its log. -/
theorem Sound.kept (sound : Sound o w) (engine : w'.engine = w.engine) (written : w'.written = w.written)
    (given : w'.given = w.given) (pages : w'.pages = w.pages) (unapplied : w'.writing.unapplied = w.writing.unapplied)
    (unmarked : w'.writing.unmarked = w.writing.unmarked)
    (record : ∀ r, w'.writing.record? = some r → w.writing.record? = some r) : Sound o w' ∧ Grows w w' := by
  refine sound.later (fun v replicated held => held.kept engine written given pages unapplied record) ?_
  rw [Writer.marked, Writer.marked, written, unmarked]

/-- A part of a change keeps what holds of the engine, and what was read stays true. -/
theorem Sound.step (sound : Sound o w) (step : Step o w w') (small : w'.pages < 2 ^ 64) : Sound o w' ∧ Grows w w' := by
  cases step with
  | log idle fits done => exact sound.log idle fits done small rfl
  | apply next done => exact sound.apply next done rfl
  | mark next done => exact sound.mark next done rfl
  | rest next =>
    refine sound.kept rfl rfl rfl rfl ?_ ?_ (by simp [Writing.record?])
    · rw [next]
      rfl
    · rw [next]
      rfl

/-! ## What is shipped -/

/-- How many records are shipped. -/
def shipped (w : Writer) : Nat := w.written.length - w.writing.unshipped

theorem shipped_le (w : Writer) : w.shipped ≤ w.written.length := Nat.sub_le _ _

/-- The logs are what the records are shipped as, in their order. -/
def Ships (w : Writer) (logs : List Bytes) : Prop := logs = (w.written.take w.shipped).map Pair.shipment

/-- What is written while nothing is shipped. -/
theorem Ships.grows {logs : List Bytes} (ships : w.Ships logs) (grows : Grows w w') (same : w'.shipped = w.shipped) :
    w'.Ships logs := by
  rw [Ships, same, grows.take w.shipped_le]
  exact ships

/-- The last of the records is shipped. -/
theorem Ships.ship {logs : List Bytes} (ships : w.Ships logs) {record : LoggedEntry} (next : w.writing = .marked record)
    (last : w.written.getLast? = some record) : Ships { w with writing := .shipping } (logs ++ [Pair.shipment record]) := by
  have one : w.shipped = w.written.length - 1 := by rw [shipped, next]; rfl
  have all : Writer.shipped { w with writing := .shipping } = w.written.length := rfl
  rw [Ships, one] at ships
  rw [Ships, all, List.take_length]
  conv_rhs => rw [take_pred last, List.map_append, ← ships]
  rfl

end Writer
end Shiplog
