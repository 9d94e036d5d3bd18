import Shiplog.Proofs.Writes

/-!
What is on its way between a primary and a standby. An answer to a registration holds what
the primary had when its parts were read, the later part the later (`Pair.Faithful`); what
was shipped before the registration was made is in it. A log is sent to the standby when its
turn has come, or was before the registration (`Pair.Wire`).
-/
namespace Shiplog
namespace Pair

open Engine (Stands effects)

variable {s : Setting} {x y : Pair}

/-! ## Answers to registrations -/

/-- A version that was read for a registration covers what was shipped before it was made. -/
structure Caught (s : Setting) (x : Pair) (g : UInt64) (p : Position) (k : Nat) : Prop where
  given : p ∈ x.given
  within : p ≤ x.home.item.tail
  covers : Covers s x.written p k
  since : x.traffic.since g ≤ k
  applied : k ≤ x.applied

/-- What is read for a registration is what the primary held, the later part the later. -/
def Faithful (s : Setting) (x : Pair) (g : UInt64) : Answer → Prop
  | .begun => True
  | .versioned p => ∃ k, Caught s x g p k
  | .dumped p entries => ∃ k j, Caught s x g p k ∧ k ≤ j ∧ j ≤ x.written.length ∧
      entries = (effects (x.written.take j) s.user).entries
  | .made sync | .sent sync => ∃ k j m, Caught s x g sync.snapshot.position k ∧ k ≤ j ∧ j ≤ m ∧ m ≤ x.written.length ∧
      sync.snapshot.entries = (effects (x.written.take j) s.user).entries ∧ sync.logs = (x.written.take m).drop k ∧
      sync.Counted

theorem Caught.grows {g : UInt64} {k : Nat} {p : Position} (caught : Caught s x g p k) (grows : Grows x y)
    (made : x.traffic.Made g) : Caught s y g p k where
  given := grows.given caught.given
  within := Position.le_trans caught.within grows.tail
  covers := grows.covers caught.covers caught.within (Nat.le_trans caught.applied x.applied_le)
  since := by
    rw [grows.since g made]
    exact caught.since
  applied := Nat.le_trans caught.applied grows.applied

theorem Faithful.grows {g : UInt64} {answer : Answer} (faithful : Faithful s x g answer) (grows : Grows x y)
    (made : x.traffic.Made g) : Faithful s y g answer := by
  have length := grows.length
  cases answer with
  | begun => trivial
  | versioned p =>
    obtain ⟨k, caught⟩ := faithful
    exact ⟨k, caught.grows grows made⟩
  | dumped p entries =>
    obtain ⟨k, j, caught, le, within, same⟩ := faithful
    refine ⟨k, j, caught.grows grows made, le, Nat.le_trans within length, ?_⟩
    rw [grows.take within]
    exact same
  | made sync | sent sync =>
    obtain ⟨k, j, m, caught, le, le', within, entries, logs, counted⟩ := faithful
    refine ⟨k, j, m, caught.grows grows made, le, le', Nat.le_trans within length, ?_, ?_, counted⟩
    · rw [grows.take (Nat.le_trans le' within)]
      exact entries
    · rw [grows.take within]
      exact logs

/-- The primary's work on registrations. What the standby has taken over when it asks was
    shipped before the registration is made; until the answer it takes over nothing. -/
structure Calls (s : Setting) (x : Pair) : Prop where
  each : ∀ g call, x.calls g = some call → x.traffic.Made g ∧ call.handshake < x.handshakes ∧
    Faithful s x g call.answer
  awaited : ∀ g call, x.calls g = some call → x.waiting = some call.handshake →
    ∀ log ∈ x.answered, log ∈ x.traffic.shipped.take (x.traffic.since g)

theorem mem_take_of_moves {t t' : Traffic} (moves : Traffic.Moves t t') {n n' : Nat} (le : n ≤ n') {log : Bytes}
    (member : log ∈ t.shipped.take n) : log ∈ t'.shipped.take n' := by
  have longer := List.take_subset_take_left t.shipped le member
  rcases moves.shipped with same | ⟨last, more⟩
  · rw [same]
    exact longer
  · rw [more, List.take_append]
    exact List.mem_append_left _ longer

/-- Nothing is done on a registration. -/
theorem Calls.kept (calls : Calls s x) (grows : Grows x y) (moves : Traffic.Moves x.traffic y.traffic)
    (same : y.calls = x.calls) (handshakes : x.handshakes ≤ y.handshakes)
    (waiting : ∀ h, y.waiting = some h → x.waiting = some h ∧ y.answered = x.answered ∨ x.handshakes ≤ h) :
    Calls s y where
  each g call found := by
    rw [same] at found
    obtain ⟨made, asked, faithful⟩ := calls.each g call found
    exact ⟨grows.made g made, Nat.lt_of_lt_of_le asked handshakes, faithful.grows grows made⟩
  awaited g call found waits log member := by
    rw [same] at found
    obtain ⟨made, asked, -⟩ := calls.each g call found
    rcases waiting call.handshake waits with ⟨before, answered⟩ | new
    · rw [answered] at member
      rw [grows.since g made]
      exact mem_take_of_moves moves (Nat.le_refl _) (calls.awaited g call found before log member)
    · exact absurd asked (Nat.not_lt.mpr new)

/-- A registration is made, or the answer to it goes on. -/
theorem Calls.goes_on (calls : Calls s x) (grows : Grows x y) (moves : Traffic.Moves x.traffic y.traffic) {g : UInt64}
    {call : Call} (same : y.calls = Function.update x.calls g (some call)) (handshakes : y.handshakes = x.handshakes)
    (waiting : y.waiting = x.waiting) (answered : y.answered = x.answered)
    (made : y.traffic.Made g) (asked : call.handshake < x.handshakes)
    (faithful : Faithful s y g call.answer)
    (awaited : x.waiting = some call.handshake → ∀ log ∈ x.answered, log ∈ y.traffic.shipped.take (y.traffic.since g)) :
    Calls s y where
  each g' call' found := by
    rw [same] at found
    by_cases here : g' = g
    · subst here
      rw [Function.update_self, Option.some.injEq] at found
      subst found
      exact ⟨made, handshakes ▸ asked, faithful⟩
    · rw [Function.update_of_ne here] at found
      obtain ⟨made', asked', faithful'⟩ := calls.each g' call' found
      exact ⟨grows.made g' made', handshakes ▸ asked', faithful'.grows grows made'⟩
  awaited g' call' found waits log member := by
    rw [same] at found
    rw [waiting] at waits
    rw [answered] at member
    by_cases here : g' = g
    · subst here
      rw [Function.update_self, Option.some.injEq] at found
      subst found
      exact awaited waits log member
    · rw [Function.update_of_ne here] at found
      rw [grows.since g' (calls.each g' call' found).1]
      exact mem_take_of_moves moves (Nat.le_refl _) (calls.awaited g' call' found waits log member)

/-! ## Logs on their way -/

/-- What has been sent to the standby was shipped, and for the registration that the primary
    has of it nothing was sent before its turn. -/
structure Wire (s : Setting) (x : Pair) : Prop where
  answered : ∀ log ∈ x.answered, log ∈ x.sent
  arrived : ∀ g, ∀ log ∈ x.traffic.arrived s.node g, log ∈ x.answered
  shipped : ∀ log ∈ x.sent, log ∈ x.traffic.shipped
  due : ∀ r, x.traffic.coordinator.standbys.get? s.node = some r → ∀ log ∈ x.sent, log ∈
    x.traffic.shipped.take (x.traffic.since r.generation + (x.traffic.arrived s.node r.generation).length + 1)

theorem Wire.moved (wire : Wire s x) (sound : Traffic.Sound x.traffic) (moves : Traffic.Moves x.traffic y.traffic)
    (acknowledged : ∀ g log, y.traffic.arrived s.node g = x.traffic.arrived s.node g ++ [log] → log ∈ x.answered)
    (sent : y.sent = x.sent) (answered : y.answered = x.answered) : Wire s y where
  answered := by
    rw [answered, sent]
    exact wire.answered
  arrived g log member := by
    rw [answered]
    rcases moves.arrived s.node g with same | ⟨last, more⟩
    · rw [same] at member
      exact wire.arrived g log member
    · rw [more] at member
      rcases List.mem_append.mp member with old | new
      · exact wire.arrived g log old
      · rw [List.mem_singleton.mp new]
        exact acknowledged g last more
  shipped log member := by
    rw [sent] at member
    have before := wire.shipped log member
    rcases moves.shipped with same | ⟨last, more⟩
    · rwa [same]
    · rw [more]
      exact List.mem_append_left _ before
  due r' found log member := by
    rw [sent] at member
    rcases moves.registered s.node r' found with ⟨r, there, generation⟩ | ⟨-, since⟩
    · have before := wire.due r there log member
      have longer : (x.traffic.arrived s.node r.generation).length ≤ (y.traffic.arrived s.node r.generation).length := by
        rcases moves.arrived s.node r.generation with same | ⟨last, more⟩
        · rw [same]
        · rw [more, List.length_append]
          exact Nat.le_add_right _ _
      rw [← generation, moves.since r.generation (sound.numbered s.node r there)]
      exact mem_take_of_moves moves (by omega) before
    · have all : log ∈ x.traffic.shipped.take x.traffic.shipped.length := by
        rw [List.take_length]
        exact wire.shipped log member
      rw [since]
      exact mem_take_of_moves moves (by omega) all

/-- The next log for the standby is due. -/
theorem Wire.transmit (wire : Wire s x) (sound : Traffic.Sound x.traffic) {g : UInt64} {log : Bytes} {logs : List Bytes}
    {rest : List Delivery} (next : x.traffic.underway = ⟨s.node, g, log :: logs⟩ :: rest) :
    Wire s { x with sent := x.sent ++ [log] } := by
  have first : (⟨s.node, g, log :: logs⟩ : Delivery) ∈ x.traffic.underway := next ▸ List.mem_cons_self
  constructor
  · intro log' member
    exact List.mem_append_left _ (wire.answered log' member)
  · exact wire.arrived
  · intro log' member
    rcases List.mem_append.mp member with old | new
    · exact wire.shipped log' old
    · rw [List.mem_singleton.mp new]
      exact sound.sent _ first log List.mem_cons_self
  · intro r found log' member
    rcases List.mem_append.mp member with old | new
    · exact wire.due r found log' old
    · rw [List.mem_singleton.mp new]
      exact sound.due next found

/-- A step of the standby that takes over no log leaves what is on its way. -/
theorem Wire.silent (wire : Wire s x) (traffic : y.traffic = x.traffic) (sent : y.sent = x.sent)
    (answered : y.answered = x.answered) : Wire s y where
  answered := by
    rw [answered, sent]
    exact wire.answered
  arrived := by
    rw [answered, traffic]
    exact wire.arrived
  shipped := by
    rw [sent, traffic]
    exact wire.shipped
  due := by
    rw [sent, traffic]
    exact wire.due

theorem Wire.take (wire : Wire s x) {log : Bytes} (arrived : log ∈ x.sent) (traffic : y.traffic = x.traffic)
    (sent : y.sent = x.sent) (answered : y.answered = x.answered ++ [log]) : Wire s y where
  answered log' member := by
    rw [answered] at member
    rw [sent]
    rcases List.mem_append.mp member with old | new
    · exact wire.answered log' old
    · rw [List.mem_singleton.mp new]
      exact arrived
  arrived g log' member := by
    rw [traffic] at member
    rw [answered]
    exact List.mem_append_left _ (wire.arrived g log' member)
  shipped := by
    rw [sent, traffic]
    exact wire.shipped
  due := by
    rw [sent, traffic]
    exact wire.due

end Pair
end Shiplog
