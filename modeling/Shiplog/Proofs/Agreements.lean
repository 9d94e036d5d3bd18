import Shiplog.Proofs.Answers

/-!
A standby agrees with its primary. Once it has installed the answer to a registration, the
client's entries that it holds are those of the primary up to some record, the fence covers
exactly the records up to there, and no log reaches it before the one due (`Pair.Follows`).
So when the registration has nothing left to receive and nothing is being written, the two
hold the same entries (`Pair.Reached.agree`).
-/
namespace Shiplog

theorem Frame.le_of_checkLength {length : Nat} (short : Frame.checkLength length = .ok ()) :
    length ≤ Frame.maxPayload := by
  unfold Frame.checkLength at short
  split at short
  · cases short
  · rename_i within
    exact Nat.le_of_not_lt within

namespace Pair

open Engine (Stands effects)

variable {s : Setting} {x y : Pair} {g : UInt64} {f u : Nat} {c : Content} {fence : Position}

/-! ## The standby -/

/-- The standby follows a registration: its entries are those of the primary up to some
    record, the fence covers the records up to there or up to the one before, and it has
    taken over no log past the fence. -/
structure Follows (s : Setting) (x : Pair) (g : UInt64) (c : Content) (fence : Position) (f u : Nat) : Prop where
  user : c.user = effects (x.written.take u) s.user
  replicated : c.replicated = some fence
  within : fence ≤ x.home.item.tail
  covers : Covers s x.written fence f
  since : x.traffic.since g ≤ f
  behind : f ≤ u
  near : u ≤ f + 1
  length : u ≤ x.written.length
  answered : ∀ log ∈ x.answered, log ∈ (x.written.take f).map shipment

/-- What holds of the standby; it follows the registration whose answer it has installed, as
    long as the primary has that registration. -/
structure Away (s : Setting) (x : Pair) : Prop where
  made : ∀ g, x.based = some g → x.traffic.Made g
  stands : ∃ logged given c, Stands s.away x.away x.awayPages logged given c ∧
    ∀ g r, x.based = some g → x.traffic.coordinator.standbys.get? s.node = some r → r.generation = g →
      ∃ fence f u, Follows s x g c fence f u

theorem Follows.grows (follows : Follows s x g c fence f u) (grows : Grows x y)
    (made : x.traffic.Made g) (answered : y.answered = x.answered) :
    Follows s y g c fence f u where
  user := by
    rw [grows.take follows.length]
    exact follows.user
  replicated := follows.replicated
  within := Position.le_trans follows.within grows.tail
  covers := grows.covers follows.covers follows.within (Nat.le_trans follows.behind follows.length)
  since := by
    rw [grows.since g made]
    exact follows.since
  behind := follows.behind
  near := follows.near
  length := Nat.le_trans follows.length grows.length
  answered := by
    rw [answered, grows.take (Nat.le_trans follows.behind follows.length)]
    exact follows.answered

theorem Away.kept (away : Away s x) (grows : Grows x y) (moves : Traffic.Moves x.traffic y.traffic)
    (same : y.away = x.away) (pages : y.awayPages = x.awayPages) (answered : y.answered = x.answered)
    (based : y.based = x.based) : Away s y where
  made g basis := by
    rw [based] at basis
    exact grows.made g (away.made g basis)
  stands := by
    obtain ⟨logged, given, c, stands, follows⟩ := away.stands
    refine ⟨logged, given, c, by rw [same, pages]; exact stands, fun g r' basis found generation => ?_⟩
    rw [based] at basis
    have made := away.made g basis
    rcases moves.registered s.node r' found with ⟨r, there, before⟩ | ⟨claimed, -⟩
    · obtain ⟨fence, f, u, here⟩ := follows g r basis there (before.trans generation)
      exact ⟨fence, f, u, here.grows grows made answered⟩
    · -- A registration made just now is not one whose answer was installed before.
      rw [generation] at claimed
      exact absurd made (Traffic.not_made claimed)

/-- Each record is shipped as a log of its own. -/
theorem shipment_inj {r r' : LoggedEntry} (counted : r.entry.Counted) (counted' : r'.entry.Counted)
    (same : shipment r = shipment r') : r = r' := by
  have parsed := (LoggedEntry.spells counted).parse
  have parsed' := (LoggedEntry.spells counted').parse
  unfold shipment at same
  rw [same, parsed', Except.ok.injEq] at parsed
  exact parsed.symm

/-- A record whose log is among the first logs is among the first records. -/
theorem Home.early (home : Home s x) {i f : Nat} {r : LoggedEntry} (here : x.written[i]? = some r)
    (early : shipment r ∈ (x.written.take f).map shipment) : i < f := by
  obtain ⟨r', member, same⟩ := List.mem_map.mp early
  obtain ⟨j, within, there⟩ := List.mem_take_iff_getElem.mp member
  have inside : j < x.written.length := by omega
  obtain rfl : r' = r := shipment_inj (home.fits r' (List.mem_of_mem_take member)).1.counted
    (home.fits r (List.mem_of_getElem? here)).1.counted same
  have nodup : x.written.Nodup := by
    have pairs := List.pairwise_map.mp home.ascending.1
    rw [List.pairwise_append] at pairs
    refine pairs.2.1.imp ?_
    rintro a b less rfl
    exact Position.lt_irrefl _ less
  have again : x.written[j]? = some r' := by rw [List.getElem?_eq_getElem inside, there]
  have index : j = i := (List.getElem?_inj inside nodup).mp (again.trans here.symm)
  omega

theorem Home.written_of_shipped (home : Home s x) {i : Nat} {log : Bytes} (here : x.traffic.shipped[i]? = some log) :
    ∃ r, x.written[i]? = some r ∧ shipment r = log := by
  rw [home.shipments, List.getElem?_map, Option.map_eq_some_iff] at here
  obtain ⟨r, there, same⟩ := here
  rw [List.getElem?_take] at there
  split at there
  · exact ⟨r, there, same⟩
  · cases there

/-- What the standby has received for the registration that it follows lies within the fence. -/
theorem Follows.received {r : Registration} (follows : Follows s x g c fence f u)
    (home : Home s x) (sound : Traffic.Sound x.traffic) (wire : Wire s x)
    (found : x.traffic.coordinator.standbys.get? s.node = some r) (generation : r.generation = g) :
    x.traffic.since g + (x.traffic.arrived s.node g).length ≤ f := by
  subst generation
  cases last : (x.traffic.arrived s.node r.generation).getLast? with
  | none =>
    rw [List.getLast?_eq_none_iff.mp last]
    exact follows.since
  | some log =>
    have balance := sound.balance s.node r found
    rw [List.getLast?_eq_getElem?] at last
    obtain ⟨inside, -⟩ := List.getElem?_eq_some_iff.mp last
    have place : x.traffic.shipped[x.traffic.since r.generation + ((x.traffic.arrived s.node r.generation).length - 1)]? =
        some log := by
      rw [← List.getElem?_drop, ← balance, List.append_assoc, List.getElem?_append_left inside]
      exact last
    obtain ⟨record, there, rfl⟩ := home.written_of_shipped place
    have taken := follows.answered _ (wire.arrived r.generation _ (List.mem_of_getElem? last))
    have early := home.early there taken
    omega

/-- A shipped log spells one of the records. -/
theorem Home.record_of_shipped (home : Home s x) {log : Bytes} {n : Nat} {record : LoggedEntry}
    (member : log ∈ x.traffic.shipped.take n) (parsed : LoggedEntry.layout.parse log = .ok record) :
    ∃ i, x.written[i]? = some record ∧ i < n ∧ shipment record = log := by
  obtain ⟨i, within, here⟩ := List.mem_take_iff_getElem.mp member
  obtain ⟨r, there, rfl⟩ := home.written_of_shipped (List.getElem?_eq_some_iff.mpr ⟨by omega, here⟩)
  have counted := (home.fits r (List.mem_of_getElem? there)).1.counted
  rw [shipment, (LoggedEntry.spells counted).parse, Except.ok.injEq] at parsed
  subst parsed
  exact ⟨i, there, by omega, rfl⟩

theorem Home.fits_of_sent (home : Home s x) (wire : Wire s x) {log : Bytes} {record : LoggedEntry}
    (arrived : log ∈ x.sent) (parsed : LoggedEntry.layout.parse log = .ok record) : record.entry.Fits s.away.backend := by
  have sent : log ∈ x.traffic.shipped.take x.traffic.shipped.length := by
    rw [List.take_length]
    exact wire.shipped log arrived
  obtain ⟨i, here, -⟩ := home.record_of_shipped sent parsed
  exact (home.fits record (List.mem_of_getElem? here)).2

/-- A log that was sent to the standby spells no record past the one in turn. -/
theorem Follows.turn {r : Registration} (follows : Follows s x g c fence f u)
    (home : Home s x) (sound : Traffic.Sound x.traffic) (wire : Wire s x)
    (found : x.traffic.coordinator.standbys.get? s.node = some r) (generation : r.generation = g) {log : Bytes}
    {record : LoggedEntry} (arrived : log ∈ x.sent) (parsed : LoggedEntry.layout.parse log = .ok record) :
    ∃ i, x.written[i]? = some record ∧ i ≤ f ∧ shipment record = log := by
  have received := follows.received home sound wire found generation
  obtain ⟨i, here, turn, same⟩ := home.record_of_shipped (wire.due r found log arrived) parsed
  rw [generation] at turn
  exact ⟨i, here, by omega, same⟩

theorem mem_take_of_getElem? {records : List LoggedEntry} {record : LoggedEntry} {i n : Nat}
    (here : records[i]? = some record) (less : i < n) : record ∈ records.take n := by
  refine List.mem_of_getElem? (i := i) ?_
  rw [List.getElem?_take_of_lt less]
  exact here

/-- The fence covers the records before its place. -/
theorem Follows.isOld {i : Nat} {record : LoggedEntry} (follows : Follows s x g c fence f u)
    (here : x.written[i]? = some record) :
    Engine.isOld c.replicated record = decide (i < f) := by
  obtain ⟨inside, value⟩ := List.getElem?_eq_some_iff.mp here
  rw [follows.replicated, Engine.isOld, Option.any_some]
  by_cases before : i < f
  · have member : record ∈ x.written.take f := List.mem_take_iff_getElem.mpr ⟨i, by omega, value⟩
    simp [before, follows.covers.1 record (List.mem_append_right _ member)]
  · have member : record ∈ x.written.drop f := by
      refine List.mem_drop_iff_getElem.mpr ⟨i - f, by omega, ?_⟩
      simp only [Nat.add_sub_cancel' (Nat.le_of_not_lt before), value]
    simp [before, Position.not_le.mpr (follows.covers.2 record member)]

/-- The record in turn takes effect, whether it has already or not. -/
theorem Follows.next {record : LoggedEntry} (follows : Follows s x g c fence f u) (sorted : s.user.Sorted)
    (here : x.written[f]? = some record) :
    record.entry.effect c.user = effects (x.written.take (f + 1)) s.user := by
  have upTo : effects (x.written.take (f + 1)) s.user = effects [record] (effects (x.written.take f) s.user) := by
    rw [List.take_add_one, here, ← Engine.effects_append]
    rfl
  have one : ∀ kv, record.entry.effect kv = effects [record] kv := fun _ => rfl
  rw [follows.user, one, upTo]
  rcases Nat.lt_or_eq_of_le follows.near with at_ | past
  · have same : u = f := by
      have behind := follows.behind
      omega
    rw [same]
  · rw [past, upTo, Engine.effects_twice (Engine.sorted_effects sorted _)]

theorem Away.take (away : Away s x) (home : Home s x) (sound : Traffic.Sound x.traffic) (wire : Wire s x) {log : Bytes}
    {record : LoggedEntry} {m : Mounted Engine} (arrived : log ∈ x.sent)
    (parsed : LoggedEntry.layout.parse log = .ok record)
    (done : (Engine.applyPayload log).perform x.away = (.ok (), m)) (small : x.awayPages + record.entry.pages < 2 ^ 64)
    (same : y = { x with
      away := m
      awayPages := x.awayPages + record.entry.pages
      answered := x.answered ++ [log] }) : Away s y := by
  obtain ⟨logged, given, c, stands, follows⟩ := away.stands
  obtain ⟨m', logged', given', version, applied, stands'⟩ :=
    stands.applyPayload parsed (home.fits_of_sent wire arrived parsed) small
  obtain rfl : m' = m := by
    rw [applied] at done
    simpa using done
  refine ⟨by rw [same]; exact away.made, logged', given', _, by rw [same]; exact stands',
    fun g r basis found generation => ?_⟩
  rw [same] at basis found
  obtain ⟨fence, f, u, before⟩ := follows g r basis found generation
  obtain ⟨i, here, turn, spelt⟩ := before.turn home sound wire found generation arrived parsed
  have old := before.isOld here
  have answered : ∀ f', f ≤ f' → i < f' →
      ∀ log' ∈ x.answered ++ [log], log' ∈ (x.written.take f').map shipment := by
    intro f' le less log' member
    rcases List.mem_append.mp member with taken | new
    · exact List.map_subset shipment (List.take_subset_take_left x.written le) (before.answered log' taken)
    · rw [List.mem_singleton.mp new, ← spelt]
      exact List.mem_map_of_mem (mem_take_of_getElem? here less)
  by_cases early : i < f
  · -- The fence covers the record: nothing changes.
    refine ⟨fence, f, u, ?_⟩
    rw [same, old]
    simp only [early, decide_true, ↓reduceIte]
    exact { before with answered := answered f (Nat.le_refl _) early }
  · obtain rfl : i = f := by omega
    refine ⟨record.position, i + 1, i + 1, ?_⟩
    rw [same, old]
    simp only [early, decide_false, Bool.false_eq_true, ↓reduceIte]
    have within := (home.ascending.2 record (List.mem_append_right _ (List.mem_of_getElem? here))).2
    constructor
    · exact before.next home.sorted here
    · rfl
    · exact within
    · exact home.covers here
    · exact Nat.le_succ_of_le before.since
    · exact Nat.le_refl _
    · exact Nat.le_succ _
    · exact (List.getElem?_eq_some_iff.mp here).1
    · exact answered (i + 1) (Nat.le_succ i) (Nat.lt_succ_self i)

theorem Away.stumble (away : Away s x) (home : Home s x) (sound : Traffic.Sound x.traffic) (wire : Wire s x) {log : Bytes}
    {record : LoggedEntry} {fence : Option Position} {p : Position} {m : Mounted Engine} (arrived : log ∈ x.sent)
    (parsed : LoggedEntry.layout.parse log = .ok record) (read : Engine.replicated x.away.disk x.away.item = .ok fence)
    (new : Engine.isOld fence record = false) (done : (Engine.logAndApply record.entry).perform x.away = (.ok p, m))
    (small : x.awayPages + record.entry.pages < 2 ^ 64)
    (same : y = { x with away := m, awayPages := x.awayPages + record.entry.pages }) : Away s y := by
  obtain ⟨logged, given, c, stands, follows⟩ := away.stands
  obtain rfl : c.replicated = fence := by
    rw [stands.replicated] at read
    simpa using read
  have fits := home.fits_of_sent wire arrived parsed
  obtain ⟨m', applied, stands', -⟩ := stands.logAndApply fits.client fits.accepted small
  obtain rfl : m' = m := by
    rw [applied] at done
    exact congrArg Prod.snd done
  refine ⟨by rw [same]; exact away.made, _, _, _, by rw [same]; exact stands',
    fun g r basis found generation => ?_⟩
  rw [same] at basis found
  obtain ⟨fence, f, u, before⟩ := follows g r basis found generation
  obtain ⟨i, here, turn, -⟩ := before.turn home sound wire found generation arrived parsed
  have late : ¬ i < f := by simpa [before.isOld here] using new
  obtain rfl : i = f := by omega
  refine ⟨fence, i, i + 1, ?_⟩
  rw [same]
  exact { before with
    user := before.next home.sorted here
    behind := Nat.le_succ i
    near := Nat.le_refl _
    length := (List.getElem?_eq_some_iff.mp here).1 }

theorem Home.mem_map_shipment (home : Home s x) {n n' : Nat} (le : n ≤ n') {log : Bytes}
    (member : log ∈ x.traffic.shipped.take n) : log ∈ (x.written.take n').map shipment := by
  rw [home.shipments, ← List.map_take, List.take_take] at member
  exact List.map_subset shipment (List.take_subset_take_left x.written (by omega)) member

/-- The last of the records sent after a version covers what they reach to. -/
theorem Home.last_covers (home : Home s x) {p : Position} {k n : Nat} (covers : Covers s x.written p k)
    (within : p ≤ x.home.item.tail) (le : k ≤ n) (length : n ≤ x.written.length) :
    ∃ fence, ((((x.written.take n).drop k).map LoggedEntry.position).getLast?.or (some p)) = some fence ∧
      fence ≤ x.home.item.tail ∧ Covers s x.written fence n :=
  home.sound.last_covers covers within le length

/-- The answer to a registration brings the standby to where the primary was when it was read. -/
theorem Away.install (away : Away s x) (home : Home s x) (calls : Calls s x) {g : UInt64} {handshake : Nat} {sync : SyncPayload}
    {m : Mounted Engine} (waits : x.waiting = some handshake) (reply : x.calls g = some ⟨handshake, .sent sync⟩)
    (done : (Engine.installPayload (SyncPayload.layout.write sync)).perform x.away = (.ok (), m))
    (small : x.awayPages + Engine.pages sync.logs < 2 ^ 64)
    (same : y = { x with
      away := m
      awayPages := x.awayPages + Engine.pages sync.logs
      waiting := none
      based := some g }) : Away s y := by
  obtain ⟨logged, given, c, stands, -⟩ := away.stands
  obtain ⟨made, -, k, j, n, caught, le, le', within, entries, logs, counted⟩ := calls.each g _ reply
  have ascending := List.pairwise_map.mp home.ascending.1
  rw [List.pairwise_append] at ascending
  have late : ∀ r ∈ sync.logs, r ∈ x.written ∧ sync.snapshot.position < r.position := by
    intro r member
    rw [logs, List.drop_take] at member
    have dropped := List.mem_of_mem_take member
    exact ⟨List.mem_of_mem_drop dropped, caught.covers.2 r dropped⟩
  have rising : (sync.logs.map LoggedEntry.position).Pairwise (· < ·) := by
    rw [logs]
    exact List.pairwise_map.mpr (ascending.2.1.sublist ((List.drop_sublist _ _).trans (List.take_sublist _ _)))
  obtain ⟨m', logged', given', version, installed, stands'⟩ := stands.installPayload counted.spells.parse entries
    (Engine.sorted_effects home.sorted _)
    (Engine.takes_effects home.takes fun r member => (home.fits r (List.mem_of_mem_take member)).2)
    (fun r member => (home.fits r (late r member).1).2) (fun r member => (late r member).2) rising small
  obtain rfl : m' = m := by
    rw [installed] at done
    simpa using done
  refine ⟨?_, logged', given', _, by rw [same]; exact stands', fun g' r basis _ _ => ?_⟩
  · rw [same]
    rintro g' ⟨⟩
    exact made
  · rw [same] at basis
    cases basis
    obtain ⟨fence, last, fence_within, covers⟩ := home.last_covers caught.covers caught.within (Nat.le_trans le le') within
    refine ⟨fence, n, n, ?_⟩
    have again := Engine.effects_again home.sorted (x.written.take n) le
    rw [List.take_take, Nat.min_eq_left le', ← logs] at again
    rw [← logs] at last
    rw [same]
    have since := Nat.le_trans caught.since (Nat.le_trans le le')
    constructor
    · exact again
    · exact last
    · exact fence_within
    · exact covers
    · exact since
    · exact Nat.le_refl n
    · exact Nat.le_succ n
    · exact within
    · intro log member
      exact home.mem_map_shipment since (calls.awaited g _ reply waits log member)

/-! ## Every run -/

/-- The invariant of a pair. -/
structure Tied (s : Setting) (x : Pair) : Prop where
  sound : Traffic.Sound x.traffic
  home : Home s x
  calls : Calls s x
  wire : Wire s x
  away : Away s x

/-- Nothing arrives when nothing has. -/
theorem acknowledged_of_same {t t' : Traffic} (same : t'.arrived = t.arrived) {node : String} {logs : List Bytes} :
    ∀ g log, t'.arrived node g = t.arrived node g ++ [log] → log ∈ logs := by
  intro g log more
  simp [same] at more

/-- A step of the primary's writer or of its traffic. -/
theorem Tied.home_step (tied : Tied s x) (sound : Traffic.Sound y.traffic) (moves : Traffic.Moves x.traffic y.traffic)
    (primary : Home s y ∧ Grows x y)
    (acknowledged : ∀ g log, y.traffic.arrived s.node g = x.traffic.arrived s.node g ++ [log] → log ∈ x.answered)
    (same : y = { x with
      traffic := y.traffic
      home := y.home
      writing := y.writing
      written := y.written
      given := y.given
      homePages := y.homePages }) : Tied s y := by
  obtain ⟨home, grows⟩ := primary
  have answered : y.answered = x.answered := by rw [same]
  constructor
  · exact sound
  · exact home
  · refine tied.calls.kept grows moves (by rw [same]) (by rw [same]) ?_
    intro h waits
    left
    rw [same] at waits
    exact ⟨waits, answered⟩
  · exact tied.wire.moved tied.sound moves acknowledged (by rw [same]) answered
  · exact tied.away.kept grows moves (by rw [same]) (by rw [same]) answered (by rw [same])

theorem Tied.write (tied : Tied s x) (step : Write s x y) (small : y.homePages < 2 ^ 64) : Tied s y := by
  have still : ∀ g log, x.traffic.arrived s.node g = x.traffic.arrived s.node g ++ [log] → log ∈ x.answered :=
    acknowledged_of_same rfl
  cases step with
  | log idle fits fitsAway done =>
    have home := tied.home.log idle fits fitsAway done small rfl
    exact tied.home_step tied.sound (.refl _) home still rfl
  | apply next done =>
    have home := tied.home.apply next done rfl
    exact tied.home_step tied.sound (.refl _) home still rfl
  | mark next done =>
    have home := tied.home.mark next done rfl
    exact tied.home_step tied.sound (.refl _) home still rfl
  | ship next step shipped =>
    have moves := tied.sound.lead_moves step
    have home := tied.home.ship next moves shipped rfl
    exact tied.home_step (tied.sound.lead step) moves home (acknowledged_of_same (step.arrived_of_shipped shipped)) rfl
  | done next ended =>
    have home : Home s { x with writing := .idle } ∧ Grows x { x with writing := .idle } :=
      tied.home.kept rfl (.inr ⟨rfl, next⟩) rfl rfl rfl rfl (.refl _)
    exact tied.home_step tied.sound (.refl _) home still rfl

theorem Tied.carry (tied : Tied s x) (step : Carry s x y) : Tied s y := by
  cases step with
  | @aside traffic step =>
    have moves := tied.sound.aside_moves step
    obtain ⟨shipped, arrived⟩ := step.same
    have home : Home s { x with traffic } ∧ Grows x { x with traffic } :=
      tied.home.kept rfl (.inl rfl) rfl rfl rfl shipped moves
    exact tied.home_step (tied.sound.aside step) moves home (acknowledged_of_same arrived) rfl
  | @lead traffic step shipped answered =>
    have moves := tied.sound.lead_moves step
    have home : Home s { x with traffic } ∧ Grows x { x with traffic } :=
      tied.home.kept rfl (.inl rfl) rfl rfl rfl shipped moves
    exact tied.home_step (tied.sound.lead step) moves home answered rfl
  | @transmit g log logs rest next =>
    obtain ⟨home, grows⟩ : Home s { x with sent := x.sent ++ [log] } ∧ Grows x { x with sent := x.sent ++ [log] } :=
      tied.home.kept rfl (.inl rfl) rfl rfl rfl rfl (.refl _)
    constructor
    · exact tied.sound
    · exact home
    · refine tied.calls.kept grows (.refl _) rfl (Nat.le_refl _) ?_
      intro h waits
      exact .inl ⟨waits, rfl⟩
    · exact tied.wire.transmit tied.sound next
    · exact tied.away.kept grows (.refl _) rfl rfl rfl rfl

/-- A step of the work on registrations, the traffic perhaps changed aside. -/
theorem Tied.register_step (tied : Tied s x) (sound : Traffic.Sound y.traffic) (moves : Traffic.Moves x.traffic y.traffic)
    (shipped : y.traffic.shipped = x.traffic.shipped) (arrived : y.traffic.arrived = x.traffic.arrived)
    {g : UInt64} {call : Call} (same : y = { x with traffic := y.traffic, calls := Function.update x.calls g (some call) })
    (made : y.traffic.Made g) (asked : call.handshake < x.handshakes)
    (faithful : Home s y → Grows x y → Faithful s y g call.answer)
    (awaited : x.waiting = some call.handshake → ∀ log ∈ x.answered, log ∈ y.traffic.shipped.take (y.traffic.since g)) :
    Tied s y := by
  obtain ⟨home, grows⟩ : Home s y ∧ Grows x y :=
    tied.home.kept (by rw [same]) (.inl (by rw [same])) (by rw [same]) (by rw [same]) (by rw [same]) shipped moves
  constructor
  · exact sound
  · exact home
  · exact tied.calls.goes_on grows moves (by rw [same]) (by rw [same]) (by rw [same]) (by rw [same]) made asked
      (faithful home grows) awaited
  · exact tied.wire.moved tied.sound moves (acknowledged_of_same arrived) (by rw [same]) (by rw [same])
  · exact tied.away.kept grows moves (by rw [same]) (by rw [same]) (by rw [same]) (by rw [same])

theorem Tied.register (tied : Tied s x) (step : Register s x y) : Tied s y := by
  obtain ⟨v, replicated, stands, known, within, covers⟩ := tied.home.stands
  cases step with
  | allot welcome room => exact tied.carry (.aside (.allot s.node (Traffic.peers_of_welcome welcome) room))
  | @enlist g handshake now claimed asked =>
    have moves := tied.sound.aside_moves (.enlist now s.node g claimed)
    refine tied.register_step (tied.sound.enlist now claimed) moves rfl rfl rfl (tied.sound.made_of_claimed now claimed)
      asked (fun _ _ => trivial) fun _ log member => ?_
    rw [Traffic.since_enlist, if_pos rfl]
    change log ∈ x.traffic.shipped.take x.traffic.shipped.length
    rw [List.take_length]
    exact tied.wire.shipped log (tied.wire.answered log member)
  | @version g handshake p call read =>
    obtain ⟨made, asked, -⟩ := tied.calls.each g _ call
    have awaited := tied.calls.awaited g _ call
    refine tied.register_step tied.sound (.refl _) rfl rfl rfl made asked (fun _ grows => ?_) awaited
    obtain rfl : v = p := by
      rw [stands.version] at read
      simpa using read
    have early : x.traffic.since g ≤ x.shipped := by
      have bound := tied.sound.within g
      rw [tied.home.shipments, List.length_map, List.length_take] at bound
      omega
    have caught : Caught s x g v x.marked :=
      ⟨known, within, covers, Nat.le_trans early x.shipped_le_marked, x.marked_le_applied⟩
    exact ⟨x.marked, caught.grows grows made⟩
  | @dump g handshake p entries call read =>
    obtain ⟨made, asked, k, caught⟩ := tied.calls.each g _ call
    have awaited := tied.calls.awaited g _ call
    refine tied.register_step tied.sound (.refl _) rfl rfl rfl made asked (fun _ grows => ?_) awaited
    rw [stands.clients] at read
    cases read
    exact ⟨k, x.applied, caught.grows grows made, caught.applied, x.applied_le, rfl⟩
  | @gather g handshake p entries logs term now call read short =>
    obtain ⟨made, asked, k, j, caught, le, within_j, same⟩ := tied.calls.each g _ call
    have awaited := tied.calls.awaited g _ call
    refine tied.register_step tied.sound (.refl _) rfl rfl rfl made asked (fun _ grows => ?_) awaited
    have after : Engine.later p (s.before ++ x.written) = x.written.drop k := by
      have old : ∀ r ∈ s.before, r.position ≤ p := fun r member => caught.covers.1 r (List.mem_append_left _ member)
      have early : ∀ r ∈ x.written.take k, r.position ≤ p :=
        fun r member => caught.covers.1 r (List.mem_append_right _ member)
      rw [Engine.later_append_of_le old, Engine.later_eq_drop early caught.covers.2]
    rw [stands.logsAfter tied.home.all_counted (.inr caught.given) caught.within, after, Except.ok.injEq] at read
    have length := Frame.le_of_checkLength short
    refine ⟨k, j, x.written.length, caught.grows grows made, le, within_j, Nat.le_refl _, same, ?_,
      SyncPayload.counted_of_length (Nat.lt_of_le_of_lt length (by decide))⟩
    rw [List.take_length]
    exact read.symm
  | @confirm g handshake sync c now call confirmed =>
    obtain ⟨made, asked, faithful⟩ := tied.calls.each g _ call
    have aside : Traffic.Aside x.traffic { x.traffic with coordinator := c } := .confirm now s.node g c confirmed
    have moves := tied.sound.aside_moves aside
    have awaited := tied.calls.awaited g _ call
    have sends : Faithful s x g (.sent sync) := faithful
    exact tied.register_step (tied.sound.aside aside) moves rfl rfl rfl (moves.made g made) asked
      (fun _ grows => sends.grows grows made) awaited

/-- A step of the standby. A handshake that it is in afterwards is a new one. -/
theorem Tied.receive_step (tied : Tied s x) (handshakes : x.handshakes ≤ y.handshakes)
    (waiting : ∀ h, y.waiting = some h → x.handshakes ≤ h) (wire : Wire s y) (away : Home s y → Grows x y → Away s y)
    (same : y = { x with
      away := y.away
      awayPages := y.awayPages
      handshakes := y.handshakes
      waiting := y.waiting
      answered := y.answered
      based := y.based }) : Tied s y := by
  have traffic : y.traffic = x.traffic := by rw [same]
  obtain ⟨home, grows⟩ : Home s y ∧ Grows x y := by
    refine tied.home.kept (by rw [same]) (.inl (by rw [same])) (by rw [same]) (by rw [same]) (by rw [same]) ?_ ?_
    · rw [traffic]
    · rw [traffic]
      exact .refl _
  constructor
  · exact traffic ▸ tied.sound
  · exact home
  · refine tied.calls.kept grows (traffic ▸ .refl _) (by rw [same]) handshakes ?_
    intro h waits
    exact .inr (waiting h waits)
  · exact wire
  · exact away home grows

theorem Tied.receive (tied : Tied s x) (step : Receive s x y) (small : y.awayPages < 2 ^ 64) : Tied s y := by
  have wire := tied.wire
  -- A standby that takes over a log is in no handshake.
  have out : x.waiting = none → ∀ h, x.waiting = some h → x.handshakes ≤ h := by
    intro free h waits
    rw [waits] at free
    cases free
  cases step with
  | ask free =>
    refine tied.receive_step (Nat.le_succ _) ?_ (wire.silent rfl rfl rfl) ?_ rfl
    · rintro h ⟨⟩
      exact Nat.le_refl _
    · intro _ grows
      exact tied.away.kept grows (.refl _) rfl rfl rfl rfl
  | lose =>
    refine tied.receive_step (Nat.le_refl _) (by simp) (wire.silent rfl rfl rfl) ?_ rfl
    intro _ grows
    exact tied.away.kept grows (.refl _) rfl rfl rfl rfl
  | install waits reply done =>
    refine tied.receive_step (Nat.le_refl _) (by simp) (wire.silent rfl rfl rfl) ?_ rfl
    intro _ _
    exact tied.away.install tied.home tied.calls waits reply done small rfl
  | spoil waits reply stands more =>
    refine tied.receive_step (Nat.le_refl _) (by simp) (wire.silent rfl rfl rfl) ?_ rfl
    intro _ _
    constructor
    · simp
    · exact ⟨_, _, _, stands, by simp⟩
  | take free arrived parsed done =>
    refine tied.receive_step (Nat.le_refl _) (out free) (wire.take arrived rfl rfl rfl) ?_ rfl
    intro _ _
    exact tied.away.take tied.home tied.sound wire arrived parsed done small rfl
  | stumble free arrived parsed read new done =>
    refine tied.receive_step (Nat.le_refl _) (out free) (wire.silent rfl rfl rfl) ?_ rfl
    intro _ _
    exact tied.away.stumble tied.home tied.sound wire arrived parsed read new done small rfl

theorem Step.pages_le (step : Step s x y) : x.homePages ≤ y.homePages ∧ x.awayPages ≤ y.awayPages := by
  cases step with
  | write step => cases step <;> exact ⟨by simp, Nat.le_refl _⟩
  | register step => cases step <;> exact ⟨Nat.le_refl _, Nat.le_refl _⟩
  | carry step => cases step <;> exact ⟨Nat.le_refl _, Nat.le_refl _⟩
  | receive step =>
    cases step with
    | spoil waits reply stands more => exact ⟨Nat.le_refl _, more⟩
    | _ => exact ⟨Nat.le_refl _, by simp⟩

theorem Reached.tied (reached : Reached s x) (small : x.homePages < 2 ^ 64) (smallAway : x.awayPages < 2 ^ 64) :
    Tied s x := by
  induction reached with
  | @begin c home away v replicated given given' homePages awayPages logged content empty stands known within covers
      counted takes standsAway =>
    have covers' : Covers s [] v 0 := ⟨by simpa using covers, by simp⟩
    have stands' : Stands s.home home homePages (s.before ++ []) given ⟨s.user, some v, replicated⟩ := by
      rw [List.append_nil]
      exact stands
    constructor
    case sound => exact Traffic.sound_begin empty
    case home =>
      constructor
      case sorted => exact stands.bears.sorted
      case takes => exact takes
      case counted => exact counted
      case last => simp [Writing.record?]
      case stands => exact ⟨v, replicated, stands', known, within, covers'⟩
      all_goals simp [Traffic.begin]
    case calls => constructor <;> simp
    case wire => constructor <;> simp [Traffic.begin]
    case away => exact ⟨by simp, logged, given', content, standsAway, by simp⟩
  | step reached step ih =>
    obtain ⟨more, moreAway⟩ := step.pages_le
    have tied := ih (Nat.lt_of_le_of_lt more small) (Nat.lt_of_le_of_lt moreAway smallAway)
    cases step with
    | write step => exact tied.write step small
    | register step => exact tied.register step
    | carry step => exact tied.carry step
    | receive step => exact tied.receive step smallAway

/-- A standby that has installed the answer to the registration that its primary has of it,
    with nothing waiting or under way for it and nothing being written, holds the client's
    entries of the primary, and its fence covers every record in the primary's log. -/
theorem Reached.agree (reached : Reached s x) (small : x.homePages < 2 ^ 64) (smallAway : x.awayPages < 2 ^ 64)
    {seen : Nat} (based : x.based = some g)
    (registered : x.traffic.coordinator.standbys.get? s.node = some ⟨.ready, [], g, seen⟩)
    (idle : x.writing = .idle) (quiet : Traffic.pendingFor s.node g x.traffic.underway = []) :
    ∃ entries fence records, Engine.clients x.home.disk x.home.item = .ok entries ∧
      Engine.clients x.away.disk x.away.item = .ok entries ∧
      Engine.replicated x.away.disk x.away.item = .ok (some fence) ∧
      Engine.logsAfter .start x.home.disk x.home.item = .ok records ∧ ∀ r ∈ records, r.position ≤ fence := by
  have tied := reached.tied small smallAway
  obtain ⟨v, replicated, stands, -⟩ := tied.home.stands
  obtain ⟨logged, given, c, standsAway, follows⟩ := tied.away.stands
  obtain ⟨fence, f, u, here⟩ := follows g _ based registered rfl
  have received := here.received tied.home tied.sound tied.wire registered rfl
  have balance : x.traffic.arrived s.node g ++ Traffic.pendingFor s.node g x.traffic.underway ++ [] =
      x.traffic.shipped.drop (x.traffic.since g) := tied.sound.balance s.node _ registered
  rw [quiet, List.append_nil, List.append_nil] at balance
  have lengths := congrArg List.length balance
  rw [List.length_drop] at lengths
  -- All that was shipped is all that was written.
  have shipped : x.traffic.shipped.length = x.written.length := by
    rw [tied.home.shipments, List.length_map, Pair.shipped, idle]
    simp [Writing.unshipped]
  have all : x.applied = x.written.length := by
    rw [Pair.applied, idle]
    rfl
  have last : f = x.written.length ∧ u = x.written.length := by
    have behind := here.behind
    have length := here.length
    have since := tied.sound.within g
    omega
  obtain ⟨rfl, rfl⟩ := last
  have records := stands.logsAfter tied.home.all_counted (.inl rfl) stands.journal.start_le
  refine ⟨_, fence, _, stands.clients, ?_, ?_, records, fun r member => ?_⟩
  · rw [all, ← here.user]
    exact standsAway.clients
  · rw [← here.replicated]
    exact standsAway.replicated
  · have covered := here.covers.1
    rw [List.take_length] at covered
    exact covered r (List.mem_of_mem_filter member)

/-- A standby registers, and a record is shipped to it. -/
theorem Reached.agree_after_ship : ∃ s x g, Reached s x ∧ x.homePages < 2 ^ 64 ∧ x.awayPages < 2 ^ 64 ∧ x.based = some g ∧
    x.writing = .idle ∧ Engine.clients x.home.disk x.home.item = .ok [([1], [2])] ∧
    ∃ entries fence records, Engine.clients x.home.disk x.home.item = .ok entries ∧
      Engine.clients x.away.disk x.away.item = .ok entries ∧
      Engine.replicated x.away.disk x.away.item = .ok (some fence) ∧
      Engine.logsAfter .start x.home.disk x.home.item = .ok records ∧ ∀ r ∈ records, r.position ≤ fence := by
  let berth : Berth := ⟨[""], [], .memory, trivial⟩
  let s : Setting := ⟨berth, berth, "b", [], .empty⟩
  let c : Coordinator := { Coordinator.ofConfig {} with role := .primary, peers := ⟨[("b", "b:1")]⟩ }
  obtain ⟨m, p, stands, tail⟩ := Engine.exists_stands
  have fits : (Entry.put [1] [2]).Fits .memory := ⟨⟨by decide, by decide⟩, by decide, trivial⟩
  have begun : Reached s ⟨.begin c, m, m, .idle, [], [p], 1, 1, fun _ => none, 0, none, [], [], none⟩ :=
    .begin rfl stands List.mem_cons_self (tail ▸ Position.le_refl _) (by simp [s]) (by simp [s])
      (by simp [s, Backend.Takes]) stands
  have asked := begun.step (.receive (.ask rfl))
  have allotted := asked.step (.register (.allot rfl (show (0 : UInt64).toNat + 1 < 2 ^ 64 by decide)))
  have enlisted := allotted.step (.register (.enlist (g := 1) 0 rfl (Nat.lt_succ_self 0)))
  have versioned := enlisted.step (.register (.version (Function.update_self _ _ _) stands.version))
  have dumped := versioned.step (.register (.dump (Function.update_self _ _ _) stands.clients))
  have short : Frame.checkLength (SyncPayload.layout.write ⟨⟨p, 0, 0, []⟩, []⟩).length = .ok () := by
    have length := Position.length_write p
    simp only [SyncPayload.layout, Snapshot.layout, Layout.imap, Layout.both, List.length_append, length]
    rfl
  have after := stands.logsAfter (by simp) (.inr List.mem_cons_self) (tail ▸ Position.le_refl _)
  have gathered := dumped.step (.register (.gather 0 0 (Function.update_self _ _ _) after short))
  have confirmed := gathered.step (.register (.confirm 0 (Function.update_self _ _ _) rfl))
  have counted : SyncPayload.Counted ⟨⟨p, 0, 0, []⟩, []⟩ :=
    SyncPayload.counted_of_length (Nat.lt_of_le_of_lt (Frame.le_of_checkLength short) (by decide))
  obtain ⟨m₁, _, _, _, install, stands₁⟩ := stands.installPayload counted.spells.parse
    (show [] = (OrderedMap.empty : OrderedMap Bytes Bytes).entries from rfl) .empty (by simp [Backend.Takes]) (by simp)
    (by simp) (by simp) (show 1 + Engine.pages [] < 2 ^ 64 by decide)
  have installed := confirmed.step (.receive (.install rfl (Function.update_self _ _ _) install))
  obtain ⟨m₂, wrote, stands₂, -⟩ := stands.log (.put [1] [2]) (by decide)
  have logged := installed.step (.write (.log rfl fits fits wrote))
  obtain ⟨m₃, apply, stands₃, -⟩ := stands₂.apply fits.client fits.accepted
  have applied := logged.step (.write (.apply rfl apply))
  obtain ⟨m₄, mark, stands₄, -⟩ := stands₃.setVersion m₂.item.tail
  have marked := applied.step (.write (.mark rfl mark))
  let record : LoggedEntry := ⟨m₂.item.tail, .put [1] [2]⟩
  have shipped := marked.step (.write (.ship rfl (.collect (shipment record) _ rfl rfl (List.Perm.refl _)) rfl))
  have transmitted := shipped.step (.carry (.transmit rfl))
  have parsed : LoggedEntry.layout.parse (shipment record) = .ok record := (LoggedEntry.spells fits.counted).parse
  obtain ⟨m₅, _, _, _, take, -⟩ := stands₁.applyPayload parsed fits
    (show 1 + Engine.pages [] + (Entry.put [1] [2]).pages < 2 ^ 64 by decide)
  have taken := transmitted.step (.receive (.take rfl List.mem_cons_self parsed take))
  have sent := taken.step (.carry (.lead (.send "b" 1 (shipment record) [] [] rfl) rfl fun g log more => by
    have arrived : (if "b" = "b" ∧ g = 1 then [] ++ [shipment record] else []) = [] ++ [log] := more
    have holds := congrArg (fun logs => log ∈ logs) arrived
    simp at holds
    exact List.mem_singleton.mpr holds.2))
  have finished := sent.step (.carry (.lead (.finish 0 "b" 1 [] rfl) rfl (acknowledged_of_same rfl)))
  have unlocked := finished.step (.carry (.lead (.unlock rfl) rfl (acknowledged_of_same rfl)))
  have done := unlocked.step (.write (.done rfl (by simp)))
  have small : 1 + (Entry.put [1] [2]).pages < 2 ^ 64 := by decide
  exact ⟨s, _, 1, done, small, small, rfl, rfl, stands₄.clients, done.agree small small rfl rfl rfl rfl⟩

end Pair
end Shiplog
