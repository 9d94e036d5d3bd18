import Shiplog.Proofs.Primaries

/-!
Registrations with a primary. Whatever happens, only the other members are registered, each
once, so the number of those that are ready tells whether all are (`isWritable_iff`). Of two
calls that register a node the newer is the one that makes its registration later, and this
may be the one with the lower number: it takes the place of the other's, for good (`Replaces`).
A call knows its own registration by the number: it makes that one ready or gives it up, and
touches no other (`Enrolls`).
-/
namespace Shiplog
namespace Coordinator

variable {c : Coordinator}

/-! ## Counting those that are ready -/

theorem mem_readyStandbys (sorted : c.standbys.Sorted) {node : String} :
    node ∈ c.readyStandbys ↔ c.statusOf node = some .ready := by
  rw [readyStandbys, (sorted.filter _).mem_keys, statusOf]
  simp only [sorted.get?_filter, Option.filter_eq_some_iff, Option.map_eq_some_iff, beq_iff_eq]

theorem nodup_readyStandbys (sorted : c.standbys.Sorted) : c.readyStandbys.Nodup := (sorted.filter _).nodup_keys

/-- If only peers are registered, a primary is writable just when all of them are ready. -/
theorem isWritable_iff (sorted : c.standbys.Sorted) (ordered : c.peers.Sorted)
    (known : ∀ n r, c.standbys.get? n = some r → n ∈ c.peers.keys) :
    c.isWritable = true ↔ c.role = .primary ∧ ∀ peer ∈ c.peers.keys, c.statusOf peer = some .ready := by
  have sub : c.readyStandbys ⊆ c.peers.keys := by
    intro node member
    have status : c.statusOf node = some .ready := (mem_readyStandbys sorted).mp member
    obtain ⟨r, found, -⟩ := Option.map_eq_some_iff.mp status
    exact known node r found
  have count : c.standbyCount = c.peers.keys.length := by simp [standbyCount, OrderedMap.keys]
  have role : c.role.isPrimary = true ↔ c.role = .primary := by
    cases c.role <;> simp [Role.isPrimary]
  rw [isWritable, Bool.and_eq_true, beq_iff_eq, role, count]
  refine and_congr_right fun _ => ?_
  constructor
  · intro full peer member
    have perm : c.readyStandbys.Perm c.peers.keys :=
      ((nodup_readyStandbys sorted).subperm sub).perm_of_length_le (Nat.le_of_eq full.symm)
    exact (mem_readyStandbys sorted).mp (perm.mem_iff.mpr member)
  · intro all
    have perm : c.readyStandbys.Perm c.peers.keys := by
      rw [List.perm_ext_iff_of_nodup (nodup_readyStandbys sorted) ordered.nodup_keys]
      intro node
      exact ⟨fun member => sub member, fun member => (mem_readyStandbys sorted).mpr (all node member)⟩
    exact perm.length_eq

theorem holds_iff {node : String} {generation : UInt64} :
    c.holds node generation = true ↔ ∃ r, c.standbys.get? node = some r ∧ r.generation = generation := by
  rw [holds, Option.any_eq_true]
  simp only [beq_iff_eq]

theorem holds_eq_false {node : String} {generation : UInt64} :
    c.holds node generation = false ↔ ∀ r, c.standbys.get? node = some r → r.generation ≠ generation := by
  rw [← Bool.not_eq_true, holds_iff]
  simp only [not_exists, not_and, ne_eq]

end Coordinator

namespace Traffic

open Relation (ReflTransGen)
open Scene (perform_step)

variable {ε : Type} {s : Surroundings ε} {fits : Hold → Traffic → Scene ε → Prop} {config : Config} {c : Coordinator}
  {x y : Traffic} {node : String} {generation : UInt64}

/-- The peers stay those that the coordinator began with. -/
theorem Reached.peers (reached : Reached c x) : x.coordinator.peers = c.peers := by
  induction reached with
  | begin empty => rfl
  | step reached step ih => exact step.peers.trans ih

theorem Reached.steps (reached : Reached c x) (steps : ReflTransGen Step x y) : Reached c y := by
  induction steps with
  | refl => exact reached
  | tail _ step ih => exact .step ih step

/-! ## Numbers -/

/-- A registration has been made with a number, and only one node can have it. -/
structure Owns (node : String) (generation : UInt64) (x : Traffic) : Prop where
  made : x.Made generation
  alone : ∀ n r, x.coordinator.standbys.get? n = some r → r.generation = generation → n = node

theorem Moves.owns (moves : Moves x y) (owns : Owns node generation x) : Owns node generation y where
  made := moves.made generation owns.made
  alone n r' found same := by
    rcases moves.registered n r' found with ⟨r, there, number⟩ | ⟨claimed, -⟩
    · exact owns.alone n r there (number.trans same)
    · rw [same] at claimed
      exact absurd owns.made (not_made claimed)

theorem Moves.gone (moves : Moves x y) (made : x.Made generation) (gone : x.coordinator.holds node generation = false) :
    y.coordinator.holds node generation = false := by
  rw [Coordinator.holds_eq_false] at gone ⊢
  rintro r' found rfl
  rcases moves.registered node r' found with ⟨r, there, same⟩ | ⟨claimed, -⟩
  · exact gone r there same
  · exact not_made claimed made

theorem Sound.moves (sound : Sound x) (step : Step x y) : Moves x y := by
  cases step with
  | aside step => exact sound.aside_moves step
  | lead step => exact sound.lead_moves step

/-- No later registration takes the number of an earlier one. -/
theorem Reached.owns (reached : Reached c x) (steps : ReflTransGen Step x y) (owns : Owns node generation x) :
    Owns node generation y := by
  induction steps with
  | refl => exact owns
  | tail steps step ih => exact ((reached.steps steps).sound.moves step).owns ih

theorem Reached.made (reached : Reached c x) (steps : ReflTransGen Step x y) (made : x.Made generation) :
    y.Made generation := by
  induction steps with
  | refl => exact made
  | tail steps step ih => exact ((reached.steps steps).sound.moves step).made generation ih

/-- A registration that its node no longer has does not come back. -/
theorem Reached.gone (reached : Reached c x) (made : x.Made generation)
    (gone : x.coordinator.holds node generation = false) (steps : ReflTransGen Step x y) :
    y.coordinator.holds node generation = false := by
  induction steps with
  | refl => exact gone
  | tail steps step ih => exact ((reached.steps steps).sound.moves step).gone (reached.made steps made) ih

/-- A registration that is made has a number of its own. -/
theorem Sound.owns_enlist (sound : Sound x) (now : Nat) (claimed : x.claimed generation = some node) :
    Owns node generation (x.enlist now node generation) where
  made := sound.made_of_claimed now claimed
  alone n r found same := by
    rcases get?_enlist found with ⟨mine, -⟩ | there
    · exact mine
    · have made := sound.numbered n r there
      rw [same] at made
      exact absurd made (not_made claimed)

/-! ## Making a registration -/

/-- What happens where a number has been given out and the registration with it is made, whatever
    else has been made since. -/
structure Replaces (c : Coordinator) (x : Traffic) (now : Nat) (node : String) (generation : UInt64) : Prop where
  reached : Reached c (x.enlist now node generation)
  waits : (x.enlist now node generation).coordinator.standbys.get? node = some ⟨.pending, [], generation, now⟩
  others : ∀ n, n ≠ node →
    (x.enlist now node generation).coordinator.standbys.get? n = x.coordinator.standbys.get? n
  /-- Any other registration of the node is gone, for good. -/
  replaced : ∀ r, x.coordinator.standbys.get? node = some r → r.generation ≠ generation ∧
    ∀ y, ReflTransGen Step (x.enlist now node generation) y → y.coordinator.holds node r.generation = false

theorem Reached.replaces (reached : Reached c x) (now : Nat) (claimed : x.claimed generation = some node) :
    Replaces c x now node generation := by
  have made : Reached c (x.enlist now node generation) := reached.step (.aside (.enlist now node generation claimed))
  have waits : (x.enlist now node generation).coordinator.standbys.get? node = some ⟨.pending, [], generation, now⟩ := by
    simp [enlist, Coordinator.enlist, OrderedMap.get?_insert]
  refine ⟨made, waits, fun n other => ?_, fun r found => ?_⟩
  · simp [enlist, Coordinator.enlist, OrderedMap.get?_insert, other]
  · have older : x.Made r.generation := reached.sound.numbered node r found
    have other : r.generation ≠ generation := by
      rintro rfl
      exact not_made claimed older
    refine ⟨other, fun y steps => made.gone (made_enlist older) ?_ steps⟩
    rw [Coordinator.holds_eq_false, waits]
    rintro r' ⟨⟩ same
    exact other same.symm

/-! ## A call -/

/-- Whether what brings a node up to date has been made, and can be sent. -/
def Sendable : Except Error Bytes → Prop
  | .ok payload => payload.length ≤ Frame.maxPayload
  | .error _ => False

/-- How a call ends that registers a node: the traffic once its registration is made and as its
    last step finds it, and the coordinator as it leaves it. -/
structure Ends (node : String) (generation : UInt64) (first last : Traffic) (made answer : Except Error Bytes)
    (final : Coordinator) : Prop where
  owns : Owns node generation last
  /-- The call succeeds only with its own registration, which it makes ready. -/
  succeeds : ∀ payload, answer = .ok payload →
    made = .ok payload ∧ last.coordinator.holds node generation = true ∧
      ∃ r, final.standbys.get? node = some r ∧ r.generation = generation ∧ r.status = .ready
  /-- A call whose registration has been replaced or removed at any time meanwhile fails, and
      leaves every registration as it is. -/
  overtaken : ∀ z, ReflTransGen Step first z → ReflTransGen Step z last → z.coordinator.holds node generation = false →
    (∃ e, answer = .error e) ∧ final.standbys = last.coordinator.standbys
  /-- A call that has nothing to send fails, and takes its own registration away. -/
  gives_up : ¬ Sendable made → (∃ e, answer = .error e) ∧ final.holds node generation = false ∧
    ∀ n r, last.coordinator.standbys.get? n = some r → ¬ (n = node ∧ r.generation = generation) →
      final.standbys.get? n = some r
  /-- Any other call succeeds. -/
  serves : Sendable made → last.coordinator.holds node generation = true → answer = made

section

variable {first last : Traffic} (owns : Owns node generation last)
  (gone : ∀ z, ReflTransGen Step first z → ReflTransGen Step z last → z.coordinator.holds node generation = false →
    last.coordinator.holds node generation = false)

include owns gone

theorem drop_ends {made : Except Error Bytes} (failed : ¬ Sendable made) (e : Error) (reason : String) :
    Ends node generation first last made (.error e) (last.coordinator.drop node generation reason) where
  owns := owns
  succeeds payload same := by cases same
  overtaken z before after lost := by
    refine ⟨⟨e, rfl⟩, ?_⟩
    simp [Coordinator.drop, gone z before after lost]
  gives_up _ := by
    refine ⟨⟨e, rfl⟩, ?_, fun n r found apart => get?_drop_of_ne found apart⟩
    rw [Coordinator.holds_eq_false]
    intro r found same
    simp only [Coordinator.drop] at found
    split at found
    · simp [OrderedMap.get?_erase] at found
    · rename_i other
      exact other (Coordinator.holds_iff.mpr ⟨r, found, same⟩)
  serves sendable := absurd sendable failed

theorem confirm_ends {now : Nat} {payload : Bytes} {c' : Coordinator} (short : payload.length ≤ Frame.maxPayload)
    (confirmed : last.coordinator.confirm? now node generation = some c') :
    Ends node generation first last (.ok payload) (.ok payload) c' := by
  unfold Coordinator.confirm? at confirmed
  split at confirmed
  · rename_i holds
    cases confirmed
    refine ⟨owns, ?_, ?_, fun failed => absurd short failed, fun _ _ => rfl⟩
    · intro payload' same
      cases same
      obtain ⟨r, found, mine⟩ := Coordinator.holds_iff.mp holds
      refine ⟨rfl, holds, { r with status := .ready, lastSeen := now }, ?_, mine, rfl⟩
      simp [OrderedMap.get?_modify, found]
    · intro z before after lost
      rw [gone z before after lost] at holds
      cases holds
  · cases confirmed

omit gone in
theorem superseded_ends {now : Nat} {payload : Bytes} (short : payload.length ≤ Frame.maxPayload)
    (superseded : last.coordinator.confirm? now node generation = none) (e : Error) :
    Ends node generation first last (.ok payload) (.error e) last.coordinator where
  owns := owns
  succeeds payload' same := by cases same
  overtaken _ _ _ _ := ⟨⟨e, rfl⟩, rfl⟩
  gives_up failed := absurd short failed
  serves _ holds := by
    rw [Coordinator.confirm?, if_pos holds] at superseded
    cases superseded

end

/-- What a call does once it has made its registration: what brings the node up to date is made,
    or fails, and others act all the while. -/
structure BringsUp (s : Surroundings ε) (first : Traffic) (outside : ε) (node : String) (generation : UInt64)
    (after : Position) (made : Except Error Bytes) (scene₂ : Scene ε) (answer : Except Error Bytes) (scene' : Scene ε) :
    Prop where
  snapshot : (s.snapshot after).perform ⟨first.coordinator, outside⟩ = (made, scene₂)
  ends : ∃ last, ReflTransGen Step first last ∧ (¬ Sendable made → last.coordinator = scene₂.coordinator) ∧
    (Sendable made → last.coordinator = (s.now.perform scene₂).2.coordinator) ∧
    Ends node generation first last made answer scene'.coordinator

/-- What a call does that registers a node, whatever happens to the coordinator meanwhile. -/
structure Enrolls (s : Surroundings ε) (x : Traffic) (scene : Scene ε) (node : String) (after : Position)
    (answer : Except Error Bytes) (scene' : Scene ε) : Prop where
  performed : (Primary.register s node after).perform scene = (answer, scene')
  /-- A node that is not welcome is refused. -/
  refused : ∀ e, x.coordinator.refusal? node = some e → answer = .error e ∧ scene' = scene
  /-- For any other a number is given out that never was before. Others act, and may register the
      node with a higher number; then its registration is made. -/
  welcome : x.coordinator.refusal? node = none → x.coordinator.generations.toNat + 1 < 2 ^ 64 →
    x.coordinator.generations < x.coordinator.allot.generations ∧
    ∃ now y scene₁, s.now.perform ⟨x.coordinator.allot, scene.outside⟩ = (.ok now, scene₁) ∧
      ReflTransGen Step (x.allot node) y ∧ y.coordinator = scene₁.coordinator ∧
      y.claimed x.coordinator.allot.generations = some node ∧
      ∃ made scene₂, BringsUp s (y.enlist now node x.coordinator.allot.generations) scene₁.outside node
        x.coordinator.allot.generations after made scene₂ answer scene'

/-- What brings a node up to date is made, or fails, just as the surroundings say, and fails
    also if it is too long. -/
theorem perform_payload {after : Position} {scene₁ scene₂ : Scene ε} {made : Except Error Bytes}
    (snapshot : (s.snapshot after).perform scene₁ = (made, scene₂)) :
    ∃ outcome, (Primary.payload s after).perform scene₁ = (outcome, scene₂) ∧ (Sendable made → outcome = made) ∧
      (¬ Sendable made → ∃ e, outcome = .error e) := by
  rw [Primary.payload, Action.perform_bind, snapshot]
  cases made with
  | error e => exact ⟨.error e, rfl, fun _ => rfl, fun _ => ⟨e, rfl⟩⟩
  | ok payload =>
    simp only [Action.perform_bind, Action.perform_ofExcept, Frame.checkLength, Sendable]
    by_cases long : Frame.maxPayload < payload.length
    · rw [if_pos long]
      exact ⟨_, rfl, fun short => absurd long (Nat.not_lt.mpr short), fun _ => ⟨_, rfl⟩⟩
    · rw [if_neg long]
      exact ⟨_, rfl, fun _ => rfl, fun failed => absurd (Nat.not_lt.mp long) failed⟩

/-- A call that has made its registration keeps to it. -/
theorem Reached.bringsUp (reached : Reached c x) (busy : Busy fits s) {outside : ε}
    (seen : fits .nothing x ⟨x.coordinator, outside⟩) (owns : Owns node generation x) (after : Position)
    {answer : Except Error Bytes} {scene' : Scene ε}
    (done : (Primary.bringUp s node generation after).perform ⟨x.coordinator, outside⟩ = (answer, scene')) :
    ∃ made scene₂, BringsUp s x outside node generation after made scene₂ answer scene' := by
  obtain ⟨y, steps, seen₂⟩ := busy.snapshot after _ x seen
  rcases snapshot : (s.snapshot after).perform ⟨x.coordinator, outside⟩ with ⟨made, scene₂⟩
  rw [snapshot] at seen₂
  have same₂ := busy.coordinator seen₂
  have gone : ∀ {last}, ReflTransGen Step x last → ∀ z, ReflTransGen Step x z → ReflTransGen Step z last →
      z.coordinator.holds node generation = false → last.coordinator.holds node generation = false :=
    fun _ z before further lost => (reached.steps before).gone (reached.made before owns.made) lost further
  obtain ⟨outcome, payload, sent, unsent⟩ := perform_payload snapshot
  refine ⟨made, scene₂, snapshot, ?_⟩
  simp only [Primary.bringUp, Action.perform_bind, Action.perform_outcome, payload] at done
  by_cases sendable : Sendable made
  · obtain rfl := sent sendable
    cases outcome with
    | error e => exact absurd sendable id
    | ok payload =>
      obtain ⟨now, z, tells, further, seen₃⟩ := busy.tells seen₂
      have all := steps.trans further
      have owns₃ := reached.owns all owns
      have same₃ := busy.coordinator seen₃
      dsimp only at done
      rw [Action.perform_bind, perform_confirm tells, ← same₃] at done
      cases confirmed : z.coordinator.confirm? now node generation with
      | none =>
        rw [confirmed] at done
        cases done
        refine ⟨z, all, fun failed => absurd sendable failed, fun _ => same₃, ?_⟩
        rw [← same₃]
        exact superseded_ends owns₃ sendable confirmed _
      | some c' =>
        rw [confirmed] at done
        cases done
        exact ⟨z, all, fun failed => absurd sendable failed, fun _ => same₃,
          confirm_ends owns₃ (gone all) sendable confirmed⟩
  · obtain ⟨e, rfl⟩ := unsent sendable
    cases done
    refine ⟨y, steps, fun _ => same₂, fun sendable' => absurd sendable' sendable, ?_⟩
    have ends := drop_ends (reached.owns steps owns) (gone steps) sendable e e.message
    rwa [same₂] at ends

/-- A call keeps to its own registration. -/
theorem Reached.enrolls (reached : Reached c x) (busy : Busy fits s) {scene : Scene ε} (seen : fits .nothing x scene)
    (node : String) (after : Position) : ∃ answer scene', Enrolls s x scene node after answer scene' := by
  have same := busy.coordinator seen
  rcases performed : (Primary.register s node after).perform scene with ⟨answer, scene'⟩
  refine ⟨answer, scene', performed, fun e refused => ?_, fun welcome room => ⟨lt_allot room, ?_⟩⟩
  · rw [same] at refused
    rw [Primary.register, Action.perform_bind, perform_welcome_refused refused] at performed
    cases performed
    exact ⟨rfl, rfl⟩
  · rw [same] at welcome room
    obtain ⟨now, y, scene₁, allot, steps, tells, same₁, claimed, seen₁, goes_on⟩ :=
      begun_runs busy seen welcome room after
    have between : Reached c y := (reached.step allot).steps steps
    have made := between.step (.aside (.enlist now node _ claimed))
    refine ⟨now, y, scene₁, tells, steps, same₁, claimed, ?_⟩
    exact made.bringsUp busy seen₁ (between.sound.owns_enlist now claimed) after (goes_on.symm.trans performed)

/-! ## The other members -/

theorem mem_peers (sorted : config.members.Sorted) {n : String} :
    n ∈ config.peers.keys ↔ n ∈ config.members.keys ∧ n ≠ config.nodeName := by
  have peers : config.peers.Sorted := sorted.filter _
  rw [peers.mem_keys, sorted.mem_keys, Config.peers]
  simp only [sorted.get?_filter, Option.filter_eq_some_iff, bne_iff_ne]
  constructor
  · rintro ⟨a, found, other⟩
    exact ⟨⟨a, found⟩, other⟩
  · rintro ⟨⟨a, found⟩, other⟩
    exact ⟨a, found, other⟩

theorem Reached.mem_peers (reached : Reached c x) (sorted : c.peers.Sorted) {n : String} {r : Registration}
    (found : x.coordinator.standbys.get? n = some r) : n ∈ c.peers.keys := by
  have known := reached.sound.known n r found
  rw [reached.peers] at known
  exact sorted.mem_keys.mpr (Option.isSome_iff_exists.mp known)

/-- What holds of the registrations with a primary at any time. -/
structure Registered (config : Config) (x : Traffic) : Prop where
  /-- Every registered node is another member. -/
  members : ∀ n r, x.coordinator.standbys.get? n = some r → n ∈ config.members.keys ∧ n ≠ config.nodeName
  /-- It has one registration. -/
  single : x.coordinator.standbys.keys.Nodup
  /-- The node is writable just when it is primary and all other members are ready. -/
  writable : x.coordinator.isWritable = true ↔ x.coordinator.role = .primary ∧
    ∀ peer ∈ config.members.keys, peer ≠ config.nodeName → x.coordinator.statusOf peer = some .ready
  /-- Of two registrations of a node the one made later is the newer, whatever their numbers. -/
  replaces : ∀ node generation, x.claimed generation = some node → ∀ now,
    Replaces (.ofConfig config) x now node generation
  gone : ∀ node generation, x.Made generation → x.coordinator.holds node generation = false →
    ∀ y, ReflTransGen Step x y → y.coordinator.holds node generation = false
  /-- A call that registers a node keeps to its own registration, and leaves a coordinator of
      which the same holds. -/
  calls : ∀ {ε : Type} (s : Surroundings ε) (fits : Hold → Traffic → Scene ε → Prop), Busy fits s →
    ∀ scene, fits .nothing x scene → ∀ node after, ∃ answer scene', Enrolls s x scene node after answer scene' ∧
      (scene.coordinator.generations.toNat + 1 < 2 ^ 64 → ∃ y, Reached (.ofConfig config) y ∧ fits .nothing y scene')

end Traffic
end Shiplog
