import Shiplog.Proofs.Writers

/-!
The writes of a primary in a pair. Its engine is written to as any engine is (`Home.sound`),
and what it has shipped lags behind what it has written by one record at most (`Pair.Home`);
what it has read of the records for a standby stays true as it writes on (`Pair.Grows`).
-/
namespace Shiplog

namespace Pair

open Engine (Stands effects)

/-! ## Counting what is written -/

/-- How many records have taken effect at the primary. -/
def applied (x : Pair) : Nat := x.written.length - x.writing.unapplied

/-- How many records the version of the primary covers. -/
def marked (x : Pair) : Nat := x.written.length - x.writing.unmarked

/-- How many records the primary has shipped. -/
def shipped (x : Pair) : Nat := x.written.length - x.writing.unshipped

/-- The primary as an engine that is written to. -/
def writer (x : Pair) : Writer := ⟨x.home, x.writing, x.written, x.given, x.homePages⟩

def Setting.origin (s : Setting) : Origin := ⟨s.home, s.before, s.user⟩

theorem shipped_le_marked (x : Pair) : x.shipped ≤ x.marked := by
  unfold shipped marked
  cases x.writing <;> simp [Writing.unshipped, Writing.unmarked]

theorem marked_le_applied (x : Pair) : x.marked ≤ x.applied := x.writer.marked_le_applied

theorem applied_le (x : Pair) : x.applied ≤ x.written.length := x.writer.applied_le

/-- A position that the first of the records lie behind and the others in front of. -/
def Covers (s : Setting) (written : List LoggedEntry) (p : Position) (k : Nat) : Prop :=
  (∀ r ∈ s.before ++ written.take k, r.position ≤ p) ∧ ∀ r ∈ written.drop k, p < r.position

variable {s : Setting} {x y : Pair}

/-- What happens to the primary's log leaves the records that are there. -/
structure Grows (x y : Pair) : Prop where
  written : ∃ new, y.written = x.written ++ new ∧ ∀ r ∈ new, x.home.item.tail < r.position
  given : x.given ⊆ y.given
  tail : x.home.item.tail ≤ y.home.item.tail
  applied : x.applied ≤ y.applied
  made : ∀ g, x.traffic.Made g → y.traffic.Made g
  since : ∀ g, x.traffic.Made g → y.traffic.since g = x.traffic.since g

theorem grows_of_writer (grows : x.writer.Grows y.writer) (moves : Traffic.Moves x.traffic y.traffic) : Grows x y where
  written := grows.written
  given := grows.given
  tail := grows.tail
  applied := grows.applied
  made := moves.made
  since := moves.since

theorem Grows.writer (grows : Grows x y) : x.writer.Grows y.writer where
  written := grows.written
  given := grows.given
  tail := grows.tail
  applied := grows.applied

theorem Grows.length (grows : Grows x y) : x.written.length ≤ y.written.length := grows.writer.length

theorem Grows.take (grows : Grows x y) {k : Nat} (le : k ≤ x.written.length) :
    y.written.take k = x.written.take k := grows.writer.take le

theorem Grows.covers (grows : Grows x y) {p : Position} {k : Nat} (covers : Covers s x.written p k)
    (within : p ≤ x.home.item.tail) (le : k ≤ x.written.length) : Covers s y.written p k :=
  grows.writer.covers (o := s.origin) covers within le

/-! ## The primary -/

/-- What holds of the engine of the primary. -/
structure Home (s : Setting) (x : Pair) : Prop where
  sorted : s.user.Sorted
  takes : s.away.backend.Takes s.user
  counted : ∀ r ∈ s.before, r.entry.Counted
  fits : ∀ r ∈ x.written, r.entry.Fits s.home.backend ∧ r.entry.Fits s.away.backend
  given : ∀ r ∈ x.written, r.position ∈ x.given
  last : ∀ r, x.writing.record? = some r → x.written.getLast? = some r
  stands : ∃ v replicated, Stands s.home x.home x.homePages (s.before ++ x.written) x.given
      ⟨effects (x.written.take x.applied) s.user, some v, replicated⟩ ∧
    v ∈ x.given ∧ v ≤ x.home.item.tail ∧ Covers s x.written v x.marked
  shipments : x.traffic.shipped = (x.written.take x.shipped).map shipment

theorem Home.sound (home : Home s x) : x.writer.Sound s.origin where
  sorted := home.sorted
  counted := home.counted
  fits r member := (home.fits r member).1
  given := home.given
  last := home.last
  stands := home.stands

theorem Home.ships (home : Home s x) : x.writer.Ships x.traffic.shipped := home.shipments

theorem Home.of_sound (home : Home s x) (sound : y.writer.Sound s.origin)
    (fits : ∀ r ∈ y.written, r.entry.Fits s.away.backend)
    (shipments : y.traffic.shipped = (y.written.take y.shipped).map shipment) : Home s y where
  sorted := home.sorted
  takes := home.takes
  counted := home.counted
  fits r member := ⟨sound.fits r member, fits r member⟩
  given := sound.given
  last := sound.last
  stands := sound.stands
  shipments := shipments

theorem Home.ascending (home : Home s x) : ((s.before ++ x.written).map LoggedEntry.position).Pairwise (· < ·) ∧
    ∀ r ∈ s.before ++ x.written, .start < r.position ∧ r.position ≤ x.home.item.tail := home.sound.ascending

theorem Home.all_counted (home : Home s x) : ∀ r ∈ s.before ++ x.written, r.entry.Counted := home.sound.all_counted

/-- The position of a record covers the records up to it. -/
theorem Home.covers (home : Home s x) {r : LoggedEntry} {k : Nat} (here : x.written[k]? = some r) :
    Covers s x.written r.position (k + 1) := home.sound.covers here

theorem Home.log (home : Home s x) {entry : Entry} {p : Position} {m : Mounted Engine} (idle : x.writing = .idle)
    (fits : entry.Fits s.home.backend) (fitsAway : entry.Fits s.away.backend)
    (done : (Engine.onLog (Log.write (Entry.layout.write entry))).perform x.home = (.ok p, m))
    (small : x.homePages + entry.pages < 2 ^ 64)
    (same : y = { x with
      home := m
      writing := .logged ⟨p, entry⟩
      written := x.written ++ [⟨p, entry⟩]
      given := x.given ++ [p]
      homePages := x.homePages + entry.pages }) : Home s y ∧ Grows x y := by
  obtain ⟨sound, grows⟩ : y.writer.Sound s.origin ∧ x.writer.Grows y.writer :=
    home.sound.log idle fits done small (by rw [same]; rfl)
  refine ⟨home.of_sound sound ?_ ?_, grows_of_writer grows (by rw [same]; exact .refl _)⟩
  · intro r member
    rw [same] at member
    rcases List.mem_append.mp member with old | new
    · exact (home.fits r old).2
    · rw [List.mem_singleton.mp new]
      exact fitsAway
  · have shipped : y.writer.shipped = x.writer.shipped := by
      simp [Writer.shipped, Pair.writer, same, idle, Writing.unshipped]
    have ships : y.writer.Ships x.traffic.shipped := home.ships.grows grows shipped
    rw [same] at ships ⊢
    exact ships

/-- A change that leaves what is written. -/
theorem Home.moved (home : Home s x) (moved : y.writer.Sound s.origin ∧ x.writer.Grows y.writer)
    (written : y.written = x.written) (moves : Traffic.Moves x.traffic y.traffic)
    (shipments : y.traffic.shipped = (x.written.take y.shipped).map shipment) : Home s y ∧ Grows x y := by
  refine ⟨home.of_sound moved.1 (fun r member => ?_) ?_, grows_of_writer moved.2 moves⟩
  · rw [written] at member
    exact (home.fits r member).2
  · rw [written]
    exact shipments

theorem Home.apply (home : Home s x) {record : LoggedEntry} {m : Mounted Engine} (next : x.writing = .logged record)
    (done : (Engine.apply record.entry).perform x.home = (.ok (), m))
    (same : y = { x with home := m, writing := .applied record }) : Home s y ∧ Grows x y := by
  have shipped : y.shipped = x.shipped := by simp [Pair.shipped, same, next, Writing.unshipped]
  refine home.moved (home.sound.apply next done (by rw [same]; rfl)) (by rw [same]) (by rw [same]; exact .refl _) ?_
  rw [shipped, same]
  exact home.shipments

theorem Home.mark (home : Home s x) {record : LoggedEntry} {m : Mounted Engine} (next : x.writing = .applied record)
    (done : (Engine.setMarker Engine.versionKey record.position).perform x.home = (.ok (), m))
    (same : y = { x with home := m, writing := .marked record }) : Home s y ∧ Grows x y := by
  have shipped : y.shipped = x.shipped := by simp [Pair.shipped, same, next, Writing.unshipped]
  refine home.moved (home.sound.mark next done (by rw [same]; rfl)) (by rw [same]) (by rw [same]; exact .refl _) ?_
  rw [shipped, same]
  exact home.shipments

theorem Home.ship (home : Home s x) {record : LoggedEntry} {traffic : Traffic} (next : x.writing = .marked record)
    (moves : Traffic.Moves x.traffic traffic) (shipped : traffic.shipped = x.traffic.shipped ++ [shipment record])
    (same : y = { x with traffic, writing := .shipping }) : Home s y ∧ Grows x y := by
  have last : x.written.getLast? = some record := home.last record (by rw [next]; rfl)
  have unapplied : y.writing.unapplied = x.writing.unapplied := by
    rw [same, next]
    rfl
  have unmarked : y.writing.unmarked = x.writing.unmarked := by
    -- The version covers the record that is shipped.
    rw [same, next]
    rfl
  have kept : y.writer.Sound s.origin ∧ x.writer.Grows y.writer :=
    home.sound.kept (by rw [same]; rfl) (by rw [same]; rfl) (by rw [same]; rfl) (by rw [same]; rfl) unapplied unmarked
      (by rw [same]; simp [Pair.writer, Writing.record?])
  refine home.moved kept (by rw [same]) (by rw [same]; exact moves) ?_
  have ships := home.ships.ship next last
  rw [← shipped] at ships
  rw [same]
  exact ships

/-- A change that concerns neither the primary's engine nor its writer. -/
theorem Home.kept (home : Home s x) (same : y.home = x.home)
    (writing : y.writing = x.writing ∨ y.writing = .idle ∧ x.writing = .shipping) (written : y.written = x.written)
    (given : y.given = x.given) (pages : y.homePages = x.homePages) (shipments : y.traffic.shipped = x.traffic.shipped)
    (moves : Traffic.Moves x.traffic y.traffic) : Home s y ∧ Grows x y := by
  have counts : y.writing.unapplied = x.writing.unapplied ∧ y.writing.unmarked = x.writing.unmarked ∧
      y.writing.unshipped = x.writing.unshipped ∧ y.writing.record? = x.writing.record? := by
    rcases writing with still | ⟨ended, before⟩
    · rw [still]
      exact ⟨rfl, rfl, rfl, rfl⟩
    · rw [ended, before]
      exact ⟨rfl, rfl, rfl, rfl⟩
  obtain ⟨unapplied, unmarked, unshipped, record⟩ := counts
  have kept : y.writer.Sound s.origin ∧ x.writer.Grows y.writer :=
    home.sound.kept same written given pages unapplied unmarked fun r writing => record.symm.trans writing
  refine home.moved kept written moves ?_
  have shipped : y.shipped = x.shipped := by rw [Pair.shipped, Pair.shipped, written, unshipped]
  rw [shipments, shipped]
  exact home.shipments

end Pair
end Shiplog
