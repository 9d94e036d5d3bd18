import Shiplog.Proofs.Maps
import Shiplog.Replication.Coordinator

/-!
The traffic of a primary. One ship or flush at a time has deliveries under way; all the
while standbys register, are confirmed, fall silent and are dropped (`Aside`, `Lead`). A
number is given out before its registration is made, and the registrations may be made in
another order than that of their numbers. Whatever the order, a registration has received
what was shipped since it was made, in that order and each log once, apart from what is
under way and what still waits (`Traffic.Sound`).
-/
namespace Shiplog

/-- Who holds the ship lock. -/
inductive Job where
  | ship (log : Bytes)
  | flush (node : String) (generation : UInt64)
  deriving DecidableEq

/-- A coordinator at work, with an account of what it has done. -/
structure Traffic where
  coordinator : Coordinator
  /-- Who holds the ship lock, if anyone does. -/
  job : Option Job
  /-- What the holder has still to hand over, the logs handed over taken off. -/
  underway : List Delivery
  /-- The logs that were shipped, each from the moment its targets are collected. -/
  shipped : List Bytes
  /-- The node that a number was given out for, until its registration is made. -/
  claimed : UInt64 → Option String
  /-- How many logs had been shipped when a registration was made. -/
  since : UInt64 → Nat
  /-- What a node has received under a registration. -/
  arrived : String → UInt64 → List Bytes

namespace Traffic

/-! ## Steps -/

/-- The traffic of a coordinator without registrations. -/
def begin (c : Coordinator) : Traffic := ⟨c, none, [], [], fun _ => none, fun _ => 0, fun _ _ => []⟩

def allot (node : String) (x : Traffic) : Traffic :=
  { x with
    coordinator := x.coordinator.allot
    claimed := Function.update x.claimed x.coordinator.allot.generations (some node) }

def enlist (now : Nat) (node : String) (generation : UInt64) (x : Traffic) : Traffic :=
  { x with
    coordinator := x.coordinator.enlist now node generation
    claimed := Function.update x.claimed generation none
    since := Function.update x.since generation x.shipped.length }

theorem claimed_allot (node : String) (x : Traffic) (g : UInt64) :
    (x.allot node).claimed g = if g = x.coordinator.allot.generations then some node else x.claimed g :=
  Function.update_apply ..

theorem claimed_enlist (now : Nat) (node : String) (generation : UInt64) (x : Traffic) (g : UInt64) :
    (x.enlist now node generation).claimed g = if g = generation then none else x.claimed g := Function.update_apply ..

theorem since_enlist (now : Nat) (node : String) (generation : UInt64) (x : Traffic) (g : UInt64) :
    (x.enlist now node generation).since g = if g = generation then x.shipped.length else x.since g :=
  Function.update_apply ..

/-- What may happen whoever holds the ship lock. -/
inductive Aside (x : Traffic) : Traffic → Prop where
  /-- A number is given out for a registration of a peer. The counter has 64 bits, and does not
      run over. -/
  | allot (node : String) (peer : (x.coordinator.peers.get? node).isSome)
      (room : x.coordinator.generations.toNat + 1 < 2 ^ 64) : Aside x (x.allot node)
  /-- The registration with a number is made, whatever has been made with another since. -/
  | enlist (now : Nat) (node : String) (generation : UInt64) (claimed : x.claimed generation = some node) :
      Aside x (x.enlist now node generation)
  | confirm (now : Nat) (node : String) (generation : UInt64) (c : Coordinator)
      (confirmed : x.coordinator.confirm? now node generation = some c) : Aside x { x with coordinator := c }
  /-- A registration is given up, its snapshot not made. -/
  | abandon (node : String) (generation : UInt64) (reason : String) :
      Aside x { x with coordinator := x.coordinator.drop node generation reason }
  | touch (now : Nat) (node : String) : Aside x { x with coordinator := x.coordinator.touch now node }
  | reap (now : Nat) : Aside x { x with coordinator := x.coordinator.reap now }
  /-- A change of links, of the role, or of what is to be flushed. -/
  | elsewhere (c : Coordinator) (standbys : c.standbys = x.coordinator.standbys) (peers : c.peers = x.coordinator.peers)
      (generations : c.generations = x.coordinator.generations) : Aside x { x with coordinator := c }

/-- The traffic after a log has arrived. -/
def arrive (node : String) (generation : UInt64) (log : Bytes) (x : Traffic) : String → UInt64 → List Bytes :=
  fun n g => if n = node ∧ g = generation then x.arrived n g ++ [log] else x.arrived n g

/-- What the holder of the ship lock does. -/
inductive Lead (x : Traffic) : Traffic → Prop where
  /-- A ship collects its targets, in any order. -/
  | collect (log : Bytes) (targets : List Delivery) (free : x.job = none) (primary : x.coordinator.role.isPrimary = true)
      (all : targets.Perm (x.coordinator.deliveries log)) :
      Lead x { x with
        coordinator := x.coordinator.collect log
        job := some (.ship log)
        underway := targets
        shipped := x.shipped ++ [log] }
  /-- A flush takes what waits for its registration. -/
  | release (node : String) (generation : UInt64) (d : Delivery) (free : x.job = none)
      (waiting : x.coordinator.waiting? node generation = some d) :
      Lead x { x with
        coordinator := x.coordinator.release node
        job := some (.flush node generation)
        underway := [d] }
  | send (node : String) (generation : UInt64) (log : Bytes) (logs : List Bytes) (rest : List Delivery)
      (next : x.underway = ⟨node, generation, log :: logs⟩ :: rest) :
      Lead x { x with
        underway := ⟨node, generation, logs⟩ :: rest
        arrived := x.arrive node generation log }
  /-- A log does not arrive: the registration is dropped, if its node still has it. -/
  | fail (d : Delivery) (rest : List Delivery) (reason : String) (next : x.underway = d :: rest) :
      Lead x { x with
        coordinator := x.coordinator.drop d.node d.generation reason
        underway := rest }
  /-- A delivery to a node that is no member. -/
  | stray (d : Delivery) (rest : List Delivery) (next : x.underway = d :: rest)
      (unknown : x.coordinator.peers.get? d.node = none) : Lead x { x with underway := rest }
  /-- All logs of a delivery have arrived. -/
  | finish (now : Nat) (node : String) (generation : UInt64) (rest : List Delivery)
      (next : x.underway = ⟨node, generation, []⟩ :: rest) :
      Lead x { x with
        coordinator := x.coordinator.delivered now ⟨node, generation, []⟩
        underway := rest }
  | unlock (done : x.underway = []) : Lead x { x with job := none }

/-- One step, of the holder of the ship lock or of anyone else. -/
inductive Step (x : Traffic) : Traffic → Prop where
  | aside {y : Traffic} (step : Aside x y) : Step x y
  | lead {y : Traffic} (step : Lead x y) : Step x y

/-- What can come of a coordinator that has no registrations at first. -/
inductive Reached (c : Coordinator) : Traffic → Prop where
  | begin (empty : c.standbys = .empty) : Reached c (begin c)
  | step {x y : Traffic} (reached : Reached c x) (step : Step x y) : Reached c y

/-! ## The account -/

/-- What is under way for a registration. -/
def pendingFor (node : String) (generation : UInt64) (underway : List Delivery) : List Bytes :=
  underway.flatMap fun d => if d.node = node ∧ d.generation = generation then d.logs else []

@[simp] theorem pendingFor_nil (node : String) (generation : UInt64) : pendingFor node generation [] = [] := rfl

theorem pendingFor_cons (node : String) (generation : UInt64) (d : Delivery) (rest : List Delivery) :
    pendingFor node generation (d :: rest) =
      (if d.node = node ∧ d.generation = generation then d.logs else []) ++ pendingFor node generation rest := rfl

/-- A number was given out, and its registration has been made. -/
def Made (x : Traffic) (generation : UInt64) : Prop :=
  generation ≤ x.coordinator.generations ∧ x.claimed generation = none

/-- The invariant: what a registration has received, what is under way for it and what waits
    for it are together what was shipped since it was made. What is under way for an earlier
    registration was shipped before. -/
structure Sound (x : Traffic) : Prop where
  sorted : x.coordinator.standbys.Sorted
  known : ∀ n r, x.coordinator.standbys.get? n = some r → (x.coordinator.peers.get? n).isSome
  claimed : ∀ g n, x.claimed g = some n → g ≤ x.coordinator.generations ∧ (x.coordinator.peers.get? n).isSome
  numbered : ∀ n r, x.coordinator.standbys.get? n = some r → x.Made r.generation
  made : ∀ d ∈ x.underway, x.Made d.generation
  unheard : ∀ n g, ¬ x.Made g → x.arrived n g = []
  within : ∀ g, x.since g ≤ x.shipped.length
  balance : ∀ n r, x.coordinator.standbys.get? n = some r →
    x.arrived n r.generation ++ pendingFor n r.generation x.underway ++ r.backlog = x.shipped.drop (x.since r.generation)
  pending : ∀ n r, x.coordinator.standbys.get? n = some r → r.status = .pending →
    x.arrived n r.generation = [] ∧ pendingFor n r.generation x.underway = []
  free : x.job = none → x.underway = []
  flush : ∀ node generation, x.job = some (.flush node generation) →
    ∀ d ∈ x.underway, d.node = node ∧ d.generation = generation
  sent : ∀ d ∈ x.underway, ∀ log ∈ d.logs, log ∈ x.shipped
  older : ∀ d ∈ x.underway, ∀ r, x.coordinator.standbys.get? d.node = some r → r.generation ≠ d.generation →
    ∀ log ∈ d.logs, log ∈ x.shipped.take (x.since r.generation)

theorem sound_begin {c : Coordinator} (empty : c.standbys = .empty) : Sound (begin c) := by
  have none_registered : ∀ n, (begin c).coordinator.standbys.get? n = none := by
    intro n
    simp [begin, empty]
  constructor
  case sorted =>
    simp only [begin, empty]
    exact .empty
  case known | numbered | balance | pending =>
    intro n r found
    rw [none_registered] at found
    cases found
  all_goals simp [begin]

/-! ## Changes that keep the account -/

/-- A change of a coordinator that makes no registration and leaves what waits for those that
    remain. -/
structure Keeps (c c' : Coordinator) : Prop where
  sorted : c'.standbys.Sorted
  peers : c'.peers = c.peers
  generations : c'.generations = c.generations
  each : ∀ n r', c'.standbys.get? n = some r' → ∃ r, c.standbys.get? n = some r ∧ r'.generation = r.generation ∧
    r'.backlog = r.backlog ∧ (r'.status = .pending → r.status = .pending)

variable {x : Traffic} {c c' : Coordinator}

theorem Keeps.made (keeps : Keeps x.coordinator c') (g : UInt64) : Made { x with coordinator := c' } g ↔ x.Made g := by
  simp only [Made, keeps.generations]

/-- A change of each registration by itself. -/
theorem keeps_modify (sorted : c.standbys.Sorted) (node : String) (change : Registration → Registration)
    (same : ∀ r, (change r).generation = r.generation ∧ (change r).backlog = r.backlog ∧
      ((change r).status = .pending → r.status = .pending)) :
    Keeps c { c with standbys := c.standbys.modify node change } := by
  refine ⟨sorted.modify node change, rfl, rfl, fun n r' found => ?_⟩
  rw [OrderedMap.get?_modify] at found
  split at found
  · obtain ⟨r, there, rfl⟩ := Option.map_eq_some_iff.mp found
    exact ⟨r, there, same r⟩
  · exact ⟨r', found, rfl, rfl, id⟩

theorem keeps_of_sub (standbys : OrderedMap String Registration) (sorted : standbys.Sorted)
    (sub : ∀ n r, standbys.get? n = some r → c.standbys.get? n = some r) : Keeps c { c with standbys } :=
  ⟨sorted, rfl, rfl, fun n r found => ⟨r, sub n r found, rfl, rfl, id⟩⟩

theorem keeps_refl (sorted : c.standbys.Sorted) : Keeps c c :=
  ⟨sorted, rfl, rfl, fun _ r found => ⟨r, found, rfl, rfl, id⟩⟩

theorem keeps_drop (sorted : c.standbys.Sorted) (node : String) (generation : UInt64) (reason : String) :
    Keeps c (c.drop node generation reason) := by
  have removed : Keeps c { c with standbys := if c.holds node generation then c.standbys.erase node else c.standbys } := by
    split
    · refine keeps_of_sub _ (sorted.erase node) fun n r found => ?_
      rw [OrderedMap.get?_erase] at found
      split at found
      · cases found
      · exact found
    · exact keeps_refl sorted
  exact ⟨removed.sorted, rfl, rfl, removed.each⟩

theorem keeps_confirm {now : Nat} {generation : UInt64} {node : String} (sorted : c.standbys.Sorted)
    (confirmed : c.confirm? now node generation = some c') : Keeps c c' := by
  unfold Coordinator.confirm? at confirmed
  split at confirmed
  · have changed := keeps_modify sorted node (fun r => { r with status := .ready, lastSeen := now })
      fun r => ⟨rfl, rfl, by simp⟩
    cases confirmed
    exact ⟨changed.sorted, rfl, rfl, changed.each⟩
  · cases confirmed

theorem keeps_touch (sorted : c.standbys.Sorted) (now : Nat) (node : String) : Keeps c (c.touch now node) :=
  keeps_modify sorted node _ fun _ => ⟨rfl, rfl, id⟩

theorem keeps_reap (sorted : c.standbys.Sorted) (now : Nat) : Keeps c (c.reap now) := by
  unfold Coordinator.reap
  split
  · refine keeps_of_sub _ (sorted.filter _) fun n r found => ?_
    rw [sorted.get?_filter] at found
    exact (Option.filter_eq_some_iff.mp found).1
  · exact keeps_refl sorted

theorem keeps_delivered (sorted : c.standbys.Sorted) (now : Nat) (d : Delivery) : Keeps c (c.delivered now d) := by
  have changed := keeps_modify sorted d.node
    (fun r => if r.generation = d.generation then { r with lastSeen := now } else r) fun r => by
      split
      · exact ⟨rfl, rfl, id⟩
      · exact ⟨rfl, rfl, id⟩
  exact ⟨changed.sorted, rfl, rfl, changed.each⟩

theorem Sound.keeps (sound : Sound x) (keeps : Keeps x.coordinator c') : Sound { x with coordinator := c' } where
  sorted := keeps.sorted
  known n r' found := by
    obtain ⟨r, there, -⟩ := keeps.each n r' found
    have member := sound.known n r there
    rwa [← keeps.peers] at member
  claimed g n claim := by
    rw [keeps.generations, keeps.peers]
    exact sound.claimed g n claim
  numbered n r' found := by
    obtain ⟨r, there, generation, -⟩ := keeps.each n r' found
    rw [keeps.made, generation]
    exact sound.numbered n r there
  made d member := by
    rw [keeps.made]
    exact sound.made d member
  unheard n g missing := by
    rw [keeps.made] at missing
    exact sound.unheard n g missing
  within := sound.within
  balance n r' found := by
    obtain ⟨r, there, generation, backlog, -⟩ := keeps.each n r' found
    rw [generation, backlog]
    exact sound.balance n r there
  pending n r' found waits := by
    obtain ⟨r, there, generation, -, status⟩ := keeps.each n r' found
    rw [generation]
    exact sound.pending n r there (status waits)
  free := sound.free
  flush := sound.flush
  sent := sound.sent
  older d member r' found apart := by
    obtain ⟨r, there, generation, -⟩ := keeps.each d.node r' found
    rw [generation] at apart ⊢
    exact sound.older d member r there apart

/-- The first delivery under way is over, or no longer concerns anyone. -/
theorem Sound.next (sound : Sound x) {d : Delivery} {rest : List Delivery} (next : x.underway = d :: rest)
    (settled : ∀ r, x.coordinator.standbys.get? d.node = some r → r.generation = d.generation → d.logs = []) :
    Sound { x with underway := rest } := by
  have sub : ∀ e ∈ rest, e ∈ x.underway := fun e member => next ▸ List.mem_cons_of_mem d member
  have same : ∀ n r, x.coordinator.standbys.get? n = some r →
      pendingFor n r.generation x.underway = pendingFor n r.generation rest := by
    intro n r found
    rw [next, pendingFor_cons]
    split
    · rename_i mine
      obtain ⟨rfl, generation⟩ := mine
      rw [settled r found generation.symm, List.nil_append]
    · rw [List.nil_append]
  constructor
  case sorted => exact sound.sorted
  case known => exact sound.known
  case claimed => exact sound.claimed
  case numbered => exact sound.numbered
  case made =>
    intro e member
    exact sound.made e (sub e member)
  case unheard => exact sound.unheard
  case within => exact sound.within
  case balance =>
    intro n r found
    rw [← same n r found]
    exact sound.balance n r found
  case pending =>
    intro n r found waits
    rw [← same n r found]
    exact sound.pending n r found waits
  case free =>
    intro free
    have empty := sound.free free
    rw [next] at empty
    cases empty
  case flush =>
    intro node generation job e member
    exact sound.flush node generation job e (sub e member)
  case sent =>
    intro e member
    exact sound.sent e (sub e member)
  case older =>
    intro e member
    exact sound.older e (sub e member)

/-! ## A new registration -/

theorem peers_of_welcome {node : String} (welcome : c.refusal? node = none) : (c.peers.get? node).isSome := by
  unfold Coordinator.refusal? at welcome
  split at welcome
  · cases welcome
  · split at welcome
    · cases welcome
    · rename_i member
      simpa [OrderedMap.contains, Option.isSome_iff_ne_none] using member

theorem lt_allot (room : c.generations.toNat + 1 < 2 ^ 64) : c.generations < c.allot.generations := by
  rw [UInt64.lt_iff_toNat_lt, Coordinator.allot, UInt64.toNat_add]
  simp only [UInt64.toNat_one]
  omega

/-- A number that is given out is new. -/
theorem Made.ne_allot {g : UInt64} (room : x.coordinator.generations.toNat + 1 < 2 ^ 64) (made : x.Made g) :
    g ≠ x.coordinator.allot.generations := by
  rintro rfl
  exact UInt64.not_le.mpr (lt_allot room) made.1

theorem made_allot {g : UInt64} {node : String} (room : x.coordinator.generations.toNat + 1 < 2 ^ 64) :
    (x.allot node).Made g ↔ x.Made g := by
  constructor
  · rintro ⟨le, unclaimed⟩
    have other : g ≠ x.coordinator.allot.generations := by
      rintro rfl
      simp [claimed_allot] at unclaimed
    rw [claimed_allot, if_neg other] at unclaimed
    refine ⟨?_, unclaimed⟩
    have less : g < x.coordinator.allot.generations := UInt64.lt_of_le_of_ne le other
    rw [UInt64.lt_iff_toNat_lt, Coordinator.allot, UInt64.toNat_add, UInt64.toNat_one, Nat.mod_eq_of_lt room] at less
    exact UInt64.le_iff_toNat_le.mpr (Nat.le_of_lt_succ less)
  · intro made
    refine ⟨UInt64.le_trans made.1 (UInt64.le_of_lt (lt_allot room)), ?_⟩
    rw [claimed_allot, if_neg (made.ne_allot room)]
    exact made.2

theorem Sound.allot (sound : Sound x) {node : String} (peer : (x.coordinator.peers.get? node).isSome)
    (room : x.coordinator.generations.toNat + 1 < 2 ^ 64) : Sound (x.allot node) where
  sorted := sound.sorted
  known := sound.known
  claimed g n claim := by
    rw [claimed_allot] at claim
    split at claim
    · rename_i new
      cases claim
      exact ⟨UInt64.le_of_eq new, peer⟩
    · obtain ⟨le, known⟩ := sound.claimed g n claim
      exact ⟨UInt64.le_trans le (UInt64.le_of_lt (lt_allot room)), known⟩
  numbered n r found := (made_allot room).mpr (sound.numbered n r found)
  made d member := (made_allot room).mpr (sound.made d member)
  unheard n g missing := sound.unheard n g fun made => missing ((made_allot room).mpr made)
  within := sound.within
  balance := sound.balance
  pending := sound.pending
  free := sound.free
  flush := sound.flush
  sent := sound.sent
  older := sound.older

theorem get?_enlist {now : Nat} {node n : String} {generation : UInt64} {r : Registration}
    (found : (c.enlist now node generation).standbys.get? n = some r) :
    n = node ∧ r = ⟨.pending, [], generation, now⟩ ∨ c.standbys.get? n = some r := by
  simp only [Coordinator.enlist, OrderedMap.get?_insert] at found
  split at found
  · rename_i same
    exact .inl ⟨same, (Option.some.inj found).symm⟩
  · exact .inr found

theorem made_enlist {now : Nat} {node : String} {g generation : UInt64} (made : x.Made g) :
    (x.enlist now node generation).Made g := by
  refine ⟨made.1, ?_⟩
  rw [claimed_enlist]
  split
  · rfl
  · exact made.2

/-- A number is used. -/
theorem Sound.made_of_claimed (sound : Sound x) (now : Nat) {node : String} {generation : UInt64}
    (claimed : x.claimed generation = some node) : (x.enlist now node generation).Made generation := by
  refine ⟨(sound.claimed generation node claimed).1, ?_⟩
  rw [claimed_enlist, if_pos rfl]

/-- A number for which no registration has been made yet. -/
theorem not_made {generation : UInt64} {node : String} (claimed : x.claimed generation = some node) :
    ¬ x.Made generation := by
  rintro ⟨-, unclaimed⟩
  rw [claimed] at unclaimed
  cases unclaimed

theorem Sound.enlist (sound : Sound x) (now : Nat) {node : String} {generation : UInt64}
    (claimed : x.claimed generation = some node) : Sound (x.enlist now node generation) := by
  have find : ∀ n r, (x.enlist now node generation).coordinator.standbys.get? n = some r →
      n = node ∧ r = ⟨.pending, [], generation, now⟩ ∨ x.coordinator.standbys.get? n = some r :=
    fun n r found => get?_enlist found
  have new : ¬ x.Made generation := not_made claimed
  have old : ∀ g, x.Made g → g ≠ generation := by
    rintro g made rfl
    exact new made
  have quiet : ∀ n, pendingFor n generation x.underway = [] := by
    intro n
    refine List.flatMap_eq_nil_iff.mpr fun d member => if_neg ?_
    rintro ⟨-, same⟩
    exact old _ (sound.made d member) same
  have since : ∀ g, x.Made g → (x.enlist now node generation).since g = x.since g := by
    intro g made
    rw [since_enlist, if_neg (old g made)]
  obtain ⟨given, peer⟩ := sound.claimed generation node claimed
  constructor
  case sorted => exact sound.sorted.insert _ _
  case known =>
    intro n r found
    rcases find n r found with ⟨rfl, -⟩ | there
    · exact peer
    · exact sound.known n r there
  case claimed =>
    intro g n claim
    rw [claimed_enlist] at claim
    split at claim
    · cases claim
    · exact sound.claimed g n claim
  case numbered =>
    intro n r found
    rcases find n r found with ⟨-, rfl⟩ | there
    · exact ⟨given, by rw [claimed_enlist, if_pos rfl]⟩
    · exact made_enlist (sound.numbered n r there)
  case made =>
    intro d member
    exact made_enlist (sound.made d member)
  case unheard =>
    intro n g missing
    exact sound.unheard n g fun made => missing (made_enlist made)
  case within =>
    intro g
    rw [since_enlist]
    split
    · exact Nat.le_refl _
    · exact sound.within g
  case balance =>
    intro n r found
    rcases find n r found with ⟨-, rfl⟩ | there
    · simp [Traffic.enlist, quiet n, sound.unheard n _ new]
    · rw [since _ (sound.numbered n r there)]
      exact sound.balance n r there
  case pending =>
    intro n r found waits
    rcases find n r found with ⟨-, rfl⟩ | there
    · exact ⟨sound.unheard n _ new, quiet n⟩
    · exact sound.pending n r there waits
  case free => exact sound.free
  case flush => exact sound.flush
  case sent => exact sound.sent
  case older =>
    intro d member r found apart log inside
    rcases find d.node r found with ⟨-, rfl⟩ | there
    · simpa [Traffic.enlist] using sound.sent d member log inside
    · rw [since _ (sound.numbered d.node r there)]
      exact sound.older d member r there apart log inside

/-! ## Shipping -/

theorem node_of_delivery? {log : Bytes} {node : String} {r : Registration} {d : Delivery}
    (found : Coordinator.delivery? log node r = some d) : d.node = node := by
  unfold Coordinator.delivery? at found
  split at found
  · exact (congrArg Delivery.node (Option.some.inj found)).symm
  · cases found

theorem mem_deliveries (sorted : c.standbys.Sorted) {log : Bytes} {d : Delivery} :
    d ∈ c.deliveries log ↔ ∃ r, c.standbys.get? d.node = some r ∧ Coordinator.delivery? log d.node r = some d := by
  rw [Coordinator.deliveries, List.mem_filterMap]
  constructor
  · rintro ⟨⟨n, r⟩, member, found⟩
    obtain rfl := node_of_delivery? found
    exact ⟨r, sorted.get?_eq_some.mpr member, found⟩
  · rintro ⟨r, there, found⟩
    exact ⟨(d.node, r), sorted.get?_eq_some.mp there, found⟩

/-- A ship makes one delivery at most to each node. -/
theorem nodup_deliveries (sorted : c.standbys.Sorted) (log : Bytes) : ((c.deliveries log).map Delivery.node).Nodup := by
  refine List.pairwise_map.mpr (List.Pairwise.filterMap _ ?_ sorted)
  rintro ⟨n, r⟩ ⟨n', r'⟩ less d first d' second same
  rw [node_of_delivery? first, node_of_delivery? second] at same
  subst same
  exact Strict.irrefl n less

/-- Of deliveries to different nodes, those for a registration are one or none. -/
theorem pendingFor_of_nodup {underway : List Delivery} (nodup : (underway.map Delivery.node).Nodup) {d : Delivery}
    (member : d ∈ underway) (generation : UInt64) :
    pendingFor d.node generation underway = if d.generation = generation then d.logs else [] := by
  induction underway with
  | nil => cases member
  | cons e rest ih =>
    obtain ⟨fresh, nodup⟩ := List.nodup_cons.mp nodup
    rw [pendingFor_cons]
    rcases List.mem_cons.mp member with rfl | later
    · have others : pendingFor d.node generation rest = [] := by
        refine List.flatMap_eq_nil_iff.mpr fun e member => if_neg ?_
        rintro ⟨same, -⟩
        exact fresh (same ▸ List.mem_map_of_mem member)
      rw [others, List.append_nil]
      simp
    · have apart : e.node ≠ d.node := by
        intro same
        exact fresh (same ▸ List.mem_map_of_mem later)
      rw [if_neg (fun both => apart both.1), List.nil_append]
      exact ih nodup later

theorem pendingFor_of_absent {underway : List Delivery} {node : String} (absent : ∀ d ∈ underway, d.node ≠ node)
    (generation : UInt64) : pendingFor node generation underway = [] :=
  List.flatMap_eq_nil_iff.mpr fun d member => if_neg fun both => absent d member both.1

/-- A ship sends a ready registration what waits for it, and the log. -/
theorem of_mem_deliveries (sorted : c.standbys.Sorted) {log : Bytes} {d : Delivery} (member : d ∈ c.deliveries log) :
    ∃ r, c.standbys.get? d.node = some r ∧ r.generation = d.generation ∧ r.status = .ready ∧
      d.logs = r.backlog ++ [log] := by
  obtain ⟨r, there, found⟩ := (mem_deliveries sorted).mp member
  unfold Coordinator.delivery? at found
  split at found
  · rename_i ready
    have same := Option.some.inj found
    exact ⟨r, there, congrArg Delivery.generation same, ready, (congrArg Delivery.logs same).symm⟩
  · cases found

theorem pendingFor_of_pending (sorted : c.standbys.Sorted) {log : Bytes} {targets : List Delivery}
    (all : targets.Perm (c.deliveries log)) {n : String} {r : Registration} (there : c.standbys.get? n = some r)
    (status : r.status = .pending) : pendingFor n r.generation targets = [] := by
  refine pendingFor_of_absent ?_ r.generation
  rintro d member rfl
  obtain ⟨r', there', -, ready, -⟩ := of_mem_deliveries sorted (all.mem_iff.mp member)
  rw [there, Option.some.injEq] at there'
  rw [← there', status] at ready
  cases ready

/-- What a ship sends and what waits then are together what waited before and the log. -/
theorem pendingFor_collect (sorted : c.standbys.Sorted) {log : Bytes} {targets : List Delivery}
    (all : targets.Perm (c.deliveries log)) {n : String} {r : Registration} (there : c.standbys.get? n = some r) :
    pendingFor n r.generation targets ++ (Coordinator.queue log r).backlog = r.backlog ++ [log] := by
  cases status : r.status with
  | ready =>
    have delivery : Coordinator.delivery? log n r = some ⟨n, r.generation, r.backlog ++ [log]⟩ := by
      rw [Coordinator.delivery?, status]
    have member : (⟨n, r.generation, r.backlog ++ [log]⟩ : Delivery) ∈ targets :=
      all.mem_iff.mpr ((mem_deliveries sorted).mpr ⟨r, there, delivery⟩)
    have nodup : (targets.map Delivery.node).Nodup := (all.map _).nodup_iff.mpr (nodup_deliveries sorted log)
    have one := pendingFor_of_nodup nodup member r.generation
    rw [if_pos rfl] at one
    rw [one, Coordinator.queue, status]
    simp
  | pending =>
    rw [pendingFor_of_pending sorted all there status, Coordinator.queue, status]
    rfl

theorem get?_collect {log : Bytes} {n : String} {r' : Registration}
    (found : (c.collect log).standbys.get? n = some r') :
    ∃ r, c.standbys.get? n = some r ∧ r' = Coordinator.queue log r := by
  simp only [Coordinator.collect, OrderedMap.get?_mapValues] at found
  obtain ⟨r, there, same⟩ := Option.map_eq_some_iff.mp found
  exact ⟨r, there, same.symm⟩

theorem generation_queue (log : Bytes) (r : Registration) : (Coordinator.queue log r).generation = r.generation := by
  unfold Coordinator.queue
  split <;> rfl

theorem Sound.shipped_of_backlog (sound : Sound x) {n : String} {r : Registration}
    (there : x.coordinator.standbys.get? n = some r) {log : Bytes} (waits : log ∈ r.backlog) : log ∈ x.shipped := by
  have balance := sound.balance n r there
  have since : log ∈ x.shipped.drop (x.since r.generation) := by
    rw [← balance]
    exact List.mem_append_right _ waits
  exact List.mem_of_mem_drop since

theorem Sound.collect (sound : Sound x) {log : Bytes} {targets : List Delivery} (free : x.job = none)
    (all : targets.Perm (x.coordinator.deliveries log)) :
    Sound { x with
      coordinator := x.coordinator.collect log
      job := some (.ship log)
      underway := targets
      shipped := x.shipped ++ [log] } := by
  have idle := sound.free free
  have target : ∀ d ∈ targets, ∃ r, x.coordinator.standbys.get? d.node = some r ∧ r.generation = d.generation ∧
      r.status = .ready ∧ d.logs = r.backlog ++ [log] :=
    fun d member => of_mem_deliveries sound.sorted (all.mem_iff.mp member)
  constructor
  case sorted => exact sound.sorted.mapValues _
  case known =>
    intro n r' found
    obtain ⟨r, there, -⟩ := get?_collect found
    exact sound.known n r there
  case claimed => exact sound.claimed
  case numbered =>
    intro n r' found
    obtain ⟨r, there, rfl⟩ := get?_collect found
    rw [generation_queue]
    exact sound.numbered n r there
  case made =>
    intro d member
    obtain ⟨r, there, same, -⟩ := target d member
    rw [← same]
    exact sound.numbered d.node r there
  case unheard => exact sound.unheard
  case within =>
    intro g
    rw [List.length_append]
    exact Nat.le_add_right_of_le (sound.within g)
  case balance =>
    intro n r' found
    obtain ⟨r, there, rfl⟩ := get?_collect found
    have before := sound.balance n r there
    rw [idle, pendingFor_nil, List.append_nil] at before
    rw [generation_queue, List.append_assoc, pendingFor_collect sound.sorted all there, ← List.append_assoc, before,
      List.drop_append_of_le_length (sound.within _)]
  case pending =>
    intro n r' found waits
    obtain ⟨r, there, rfl⟩ := get?_collect found
    have status : r.status = .pending := by
      unfold Coordinator.queue at waits
      split at waits <;> exact waits
    rw [generation_queue]
    exact ⟨(sound.pending n r there status).1, pendingFor_of_pending sound.sorted all there status⟩
  case free => simp
  case flush => simp
  case sent =>
    intro d member log' inside
    obtain ⟨r, there, -, -, logs⟩ := target d member
    rw [logs] at inside
    rcases List.mem_append.mp inside with waited | new
    · exact List.mem_append_left _ (sound.shipped_of_backlog there waited)
    · exact List.mem_append_right _ new
  case older =>
    intro d member r' found apart
    obtain ⟨r, there, rfl⟩ := get?_collect found
    obtain ⟨r', there', same, -⟩ := target d member
    rw [there, Option.some.injEq] at there'
    subst there'
    rw [generation_queue] at apart
    exact absurd same apart

/-- What waits for a registration is that of the one asked for, and is all that it has. -/
theorem waiting_eq_some {node : String} {generation : UInt64} {d : Delivery} (waiting : c.waiting? node generation = some d) :
    ∃ r, c.standbys.get? node = some r ∧ r.generation = generation ∧ r.status = .ready ∧
      d = ⟨node, generation, r.backlog⟩ := by
  unfold Coordinator.waiting? at waiting
  split at waiting
  · rename_i r found
    split at waiting
    · rename_i holds
      exact ⟨r, found, holds.1, holds.2.1, (Option.some.inj waiting).symm⟩
    · cases waiting
  · cases waiting

theorem get?_release (c : Coordinator) (node n : String) : (c.release node).standbys.get? n =
    if n = node then (c.standbys.get? n).map fun r => { r with backlog := [] } else c.standbys.get? n :=
  OrderedMap.get?_modify c.standbys node _ n

theorem Sound.release (sound : Sound x) {node : String} {generation : UInt64} {d : Delivery} (free : x.job = none)
    (waiting : x.coordinator.waiting? node generation = some d) :
    Sound { x with
      coordinator := x.coordinator.release node
      job := some (.flush node generation)
      underway := [d] } := by
  have idle := sound.free free
  obtain ⟨mine, there, rfl, ready, rfl⟩ := waiting_eq_some waiting
  have before := sound.balance node mine there
  rw [idle, pendingFor_nil, List.append_nil] at before
  have find : ∀ n r', (x.coordinator.release node).standbys.get? n = some r' →
      n = node ∧ r' = { mine with backlog := [] } ∨ n ≠ node ∧ x.coordinator.standbys.get? n = some r' := by
    intro n r' found
    rw [get?_release] at found
    split at found
    · rename_i same
      rw [same, there] at found
      exact .inl ⟨same, (Option.some.inj found).symm⟩
    · rename_i apart
      exact .inr ⟨apart, found⟩
  have whole : pendingFor node mine.generation [⟨node, mine.generation, mine.backlog⟩] = mine.backlog := by
    simp [pendingFor_cons]
  have others : ∀ n generation, n ≠ node → pendingFor n generation [⟨node, mine.generation, mine.backlog⟩] = [] := by
    intro n generation apart
    refine pendingFor_of_absent ?_ generation
    simpa using Ne.symm apart
  constructor
  case sorted => exact sound.sorted.modify _ _
  case known =>
    intro n r' found
    rcases find n r' found with ⟨rfl, -⟩ | ⟨-, old⟩
    · exact sound.known n mine there
    · exact sound.known n r' old
  case claimed => exact sound.claimed
  case numbered =>
    intro n r' found
    rcases find n r' found with ⟨rfl, rfl⟩ | ⟨-, old⟩
    · exact sound.numbered n mine there
    · exact sound.numbered n r' old
  case made =>
    intro d member
    rw [List.mem_singleton.mp member]
    exact sound.numbered node mine there
  case unheard => exact sound.unheard
  case within => exact sound.within
  case balance =>
    intro n r' found
    rcases find n r' found with ⟨rfl, rfl⟩ | ⟨apart, old⟩
    · rw [whole, List.append_nil]
      exact before
    · have same := sound.balance n r' old
      rwa [idle, pendingFor_nil, ← others n r'.generation apart] at same
  case pending =>
    intro n r' found waits
    rcases find n r' found with ⟨rfl, rfl⟩ | ⟨apart, old⟩
    · exact absurd (ready.symm.trans waits) (by simp)
    · exact ⟨(sound.pending n r' old waits).1, others n _ apart⟩
  case free => simp
  case flush =>
    intro node' generation' job d member
    cases job
    rw [List.mem_singleton.mp member]
    exact ⟨rfl, rfl⟩
  case sent =>
    intro d member log inside
    rw [List.mem_singleton.mp member] at inside
    exact sound.shipped_of_backlog there inside
  case older =>
    intro d member r' found apart
    rw [List.mem_singleton.mp member] at found apart
    rcases find node r' found with ⟨-, rfl⟩ | ⟨other, -⟩
    · exact absurd rfl apart
    · exact absurd rfl other

theorem Sound.send (sound : Sound x) {node : String} {generation : UInt64} {log : Bytes} {logs : List Bytes}
    {rest : List Delivery} (next : x.underway = ⟨node, generation, log :: logs⟩ :: rest) :
    Sound { x with
      underway := ⟨node, generation, logs⟩ :: rest
      arrived := x.arrive node generation log } := by
  have first : (⟨node, generation, log :: logs⟩ : Delivery) ∈ x.underway := next ▸ List.mem_cons_self
  have here : x.Made generation := sound.made _ first
  have later : ∀ d ∈ rest, d ∈ x.underway := fun d member => next ▸ List.mem_cons_of_mem _ member
  -- The log moves from the head of what is under way to the end of what has arrived.
  have moved : ∀ n g, x.arrive node generation log n g ++ pendingFor n g (⟨node, generation, logs⟩ :: rest) =
      x.arrived n g ++ pendingFor n g x.underway := by
    intro n g
    rw [next, pendingFor_cons, pendingFor_cons, arrive]
    by_cases mine : n = node ∧ g = generation
    · obtain ⟨rfl, rfl⟩ := mine
      simp
    · have apart : ¬ (node = n ∧ generation = g) := fun same => mine ⟨same.1.symm, same.2.symm⟩
      simp [mine, apart]
  constructor
  case sorted => exact sound.sorted
  case known => exact sound.known
  case claimed => exact sound.claimed
  case numbered => exact sound.numbered
  case made =>
    intro d member
    rcases List.mem_cons.mp member with rfl | after
    · exact here
    · exact sound.made d (later d after)
  case unheard =>
    intro n g missing
    have apart : ¬ (n = node ∧ g = generation) := by
      rintro ⟨-, rfl⟩
      exact missing here
    change (if n = node ∧ g = generation then _ else _) = []
    rw [if_neg apart]
    exact sound.unheard n g missing
  case within => exact sound.within
  case balance =>
    intro n r found
    rw [moved]
    exact sound.balance n r found
  case pending =>
    intro n r found waits
    obtain ⟨silent, quiet⟩ := sound.pending n r found waits
    have both := moved n r.generation
    rw [silent, quiet] at both
    exact List.append_eq_nil_iff.mp both
  case free =>
    intro free
    have empty := sound.free free
    rw [next] at empty
    cases empty
  case flush =>
    intro node' generation' job d member
    rcases List.mem_cons.mp member with rfl | after
    · exact sound.flush node' generation' job ⟨node, generation, log :: logs⟩ first
    · exact sound.flush node' generation' job d (later d after)
  case sent =>
    intro d member log' inside
    rcases List.mem_cons.mp member with rfl | after
    · exact sound.sent _ first log' (List.mem_cons_of_mem _ inside)
    · exact sound.sent d (later d after) log' inside
  case older =>
    intro d member r found apart log' inside
    rcases List.mem_cons.mp member with rfl | after
    · exact sound.older _ first r found apart log' (List.mem_cons_of_mem _ inside)
    · exact sound.older d (later d after) r found apart log' inside

/-! ## Every run -/

theorem Sound.aside (sound : Sound x) {y : Traffic} (step : Aside x y) : Sound y := by
  cases step with
  | allot node peer room => exact sound.allot peer room
  | enlist now node generation claimed => exact sound.enlist now claimed
  | confirm now node generation c confirmed => exact sound.keeps (keeps_confirm sound.sorted confirmed)
  | abandon node generation reason => exact sound.keeps (keeps_drop sound.sorted node generation reason)
  | touch now node => exact sound.keeps (keeps_touch sound.sorted now node)
  | reap now => exact sound.keeps (keeps_reap sound.sorted now)
  | elsewhere c standbys peers generations =>
    refine sound.keeps ⟨standbys ▸ sound.sorted, peers, generations, fun n r found => ?_⟩
    rw [standbys] at found
    exact ⟨r, found, rfl, rfl, id⟩

theorem Sound.lead (sound : Sound x) {y : Traffic} (step : Lead x y) : Sound y := by
  cases step with
  | collect log targets free primary all => exact sound.collect free all
  | release node generation d free waiting => exact sound.release free waiting
  | send node generation log logs rest next => exact sound.send next
  | fail d rest reason next =>
    refine (sound.keeps (keeps_drop sound.sorted d.node d.generation reason)).next next fun r found same => ?_
    -- The registration that the delivery was for is gone.
    simp only [Coordinator.drop] at found
    split at found
    · simp [OrderedMap.get?_erase] at found
    · rename_i other
      simp [Coordinator.holds, found, same] at other
  | stray d rest next unknown =>
    refine sound.next next fun r found _ => ?_
    have member := sound.known d.node r found
    rw [unknown] at member
    cases member
  | finish now node generation rest next =>
    exact (sound.keeps (keeps_delivered sound.sorted now _)).next next fun _ _ _ => rfl
  | unlock done =>
    exact { sound with
      free := fun _ => done
      flush := by simp }

theorem Sound.step (sound : Sound x) {y : Traffic} (step : Step x y) : Sound y := by
  cases step with
  | aside step => exact sound.aside step
  | lead step => exact sound.lead step

/-- Every reached traffic is sound. -/
theorem Reached.sound (reached : Reached c x) : Sound x := by
  induction reached with
  | begin empty => exact sound_begin empty
  | step reached step ih => exact ih.step step

/-- The log to be handed over next is the next that its registration has not received, or
    was shipped before the registration of its node was made. -/
theorem Sound.due (sound : Sound x) {node : String} {generation : UInt64} {log : Bytes} {logs : List Bytes}
    {rest : List Delivery} (next : x.underway = ⟨node, generation, log :: logs⟩ :: rest) {r : Registration}
    (found : x.coordinator.standbys.get? node = some r) :
    log ∈ x.shipped.take (x.since r.generation + (x.arrived node r.generation).length + 1) := by
  rw [Nat.add_assoc, List.take_add]
  by_cases mine : r.generation = generation
  · have balance := sound.balance node r found
    rw [next, pendingFor_cons, if_pos ⟨rfl, mine.symm⟩] at balance
    refine List.mem_append_right _ ?_
    rw [← balance, List.append_assoc, List.take_length_add_append]
    exact List.mem_append_right _ List.mem_cons_self
  · have first : (⟨node, generation, log :: logs⟩ : Delivery) ∈ x.underway := next ▸ List.mem_cons_self
    exact List.mem_append_left _ (sound.older _ first r found mine log List.mem_cons_self)

/-! ## What a step changes -/

theorem Aside.same {y : Traffic} (step : Aside x y) : y.shipped = x.shipped ∧ y.arrived = x.arrived := by
  cases step <;> exact ⟨rfl, rfl⟩

/-- What a step leaves of what a node has received, of what was shipped, and of the
    registrations: one that is there afterwards was there before or is made now. -/
structure Moves (x y : Traffic) : Prop where
  shipped : y.shipped = x.shipped ∨ ∃ log, y.shipped = x.shipped ++ [log]
  made : ∀ g, x.Made g → y.Made g
  claimed : ∀ g n, y.claimed g = some n → x.claimed g = some n ∨ x.coordinator.generations < g
  since : ∀ g, x.Made g → y.since g = x.since g
  arrived : ∀ n g, y.arrived n g = x.arrived n g ∨ ∃ log, y.arrived n g = x.arrived n g ++ [log]
  registered : ∀ n r', y.coordinator.standbys.get? n = some r' →
    (∃ r, x.coordinator.standbys.get? n = some r ∧ r.generation = r'.generation) ∨
      x.claimed r'.generation = some n ∧ y.since r'.generation = x.shipped.length

theorem Moves.refl (x : Traffic) : Moves x x :=
  ⟨.inl rfl, fun _ => id, fun _ _ => .inl, fun _ _ => rfl, fun _ _ => .inl rfl, fun _ r' found => .inl ⟨r', found, rfl⟩⟩

/-- A step that gives out no number and makes no registration. -/
theorem moves_of_old {y : Traffic} (shipped : y.shipped = x.shipped ∨ ∃ log, y.shipped = x.shipped ++ [log])
    (generations : y.coordinator.generations = x.coordinator.generations) (claimed : y.claimed = x.claimed)
    (since : y.since = x.since)
    (arrived : ∀ n g, y.arrived n g = x.arrived n g ∨ ∃ log, y.arrived n g = x.arrived n g ++ [log])
    (old : ∀ n r', y.coordinator.standbys.get? n = some r' →
      ∃ r, x.coordinator.standbys.get? n = some r ∧ r.generation = r'.generation) : Moves x y where
  shipped := shipped
  made g made := by
    rw [Made, generations, claimed]
    exact made
  claimed g n claim := .inl (claimed ▸ claim)
  since g _ := congrFun since g
  arrived := arrived
  registered n r' found := .inl (old n r' found)

theorem Keeps.moves {y : Traffic} (keeps : Keeps x.coordinator y.coordinator) (shipped : y.shipped = x.shipped)
    (claimed : y.claimed = x.claimed) (since : y.since = x.since) (arrived : y.arrived = x.arrived) : Moves x y := by
  refine moves_of_old (.inl shipped) keeps.generations claimed since ?_ ?_
  · intro n g
    exact .inl (congrFun (congrFun arrived n) g)
  · intro n r' found
    obtain ⟨r, there, generation, -⟩ := keeps.each n r' found
    exact ⟨r, there, generation.symm⟩

theorem Sound.aside_moves (sound : Sound x) {y : Traffic} (step : Aside x y) : Moves x y := by
  cases step with
  | allot node peer room =>
    constructor
    case shipped => exact .inl rfl
    case made =>
      intro g made
      exact (made_allot room).mpr made
    case claimed =>
      intro g n claim
      rw [claimed_allot] at claim
      split at claim
      · rename_i new
        exact .inr (new ▸ lt_allot room)
      · exact .inl claim
    case since =>
      intro g _
      rfl
    case arrived =>
      intro n g
      exact .inl rfl
    case registered =>
      intro n r' found
      exact .inl ⟨r', found, rfl⟩
  | enlist now node generation claimed =>
    constructor
    case shipped => exact .inl rfl
    case made =>
      intro g made
      exact made_enlist made
    case claimed =>
      intro g n claim
      rw [claimed_enlist] at claim
      split at claim
      · cases claim
      · exact .inl claim
    case since =>
      intro g made
      rw [since_enlist, if_neg]
      rintro rfl
      exact not_made claimed made
    case arrived =>
      intro n g
      exact .inl rfl
    case registered =>
      intro n r' found
      rcases get?_enlist found with ⟨rfl, rfl⟩ | there
      · exact .inr ⟨claimed, by rw [since_enlist, if_pos rfl]⟩
      · exact .inl ⟨r', there, rfl⟩
  | confirm now node generation c confirmed => exact (keeps_confirm sound.sorted confirmed).moves rfl rfl rfl rfl
  | abandon node generation reason => exact (keeps_drop sound.sorted node generation reason).moves rfl rfl rfl rfl
  | touch now node => exact (keeps_touch sound.sorted now node).moves rfl rfl rfl rfl
  | reap now => exact (keeps_reap sound.sorted now).moves rfl rfl rfl rfl
  | elsewhere c standbys peers generations =>
    refine moves_of_old (.inl rfl) generations rfl rfl (fun _ _ => .inl rfl) ?_
    intro n r' found
    rw [standbys] at found
    exact ⟨r', found, rfl⟩

theorem Sound.lead_moves (sound : Sound x) {y : Traffic} (step : Lead x y) : Moves x y := by
  cases step with
  | collect log targets free primary all =>
    refine moves_of_old (.inr ⟨log, rfl⟩) rfl rfl rfl (fun _ _ => .inl rfl) ?_
    intro n r' found
    obtain ⟨r, there, rfl⟩ := get?_collect found
    exact ⟨r, there, (generation_queue log r).symm⟩
  | release node generation d free waiting =>
    refine moves_of_old (.inl rfl) rfl rfl rfl (fun _ _ => .inl rfl) ?_
    intro n r' found
    rw [get?_release] at found
    split at found
    · obtain ⟨r, there, rfl⟩ := Option.map_eq_some_iff.mp found
      exact ⟨r, there, rfl⟩
    · exact ⟨r', found, rfl⟩
  | send node generation log logs rest next =>
    refine moves_of_old (.inl rfl) rfl rfl rfl ?_ (fun n r' found => ⟨r', found, rfl⟩)
    intro n g
    by_cases mine : n = node ∧ g = generation
    · exact .inr ⟨log, if_pos mine⟩
    · exact .inl (if_neg mine)
  | fail d rest reason next => exact (keeps_drop sound.sorted d.node d.generation reason).moves rfl rfl rfl rfl
  | stray d rest next unknown =>
    exact moves_of_old (.inl rfl) rfl rfl rfl (fun _ _ => .inl rfl) (fun n r' found => ⟨r', found, rfl⟩)
  | finish now node generation rest next => exact (keeps_delivered sound.sorted now _).moves rfl rfl rfl rfl
  | unlock done =>
    exact moves_of_old (.inl rfl) rfl rfl rfl (fun _ _ => .inl rfl) (fun n r' found => ⟨r', found, rfl⟩)

/-- While a log is shipped nothing arrives. -/
theorem Lead.arrived_of_shipped {y : Traffic} (step : Lead x y) {log : Bytes} (shipped : y.shipped = x.shipped ++ [log]) :
    y.arrived = x.arrived := by
  cases step with
  | send node generation log' logs rest next => simp at shipped
  | _ => rfl

/-! ## What a primary promises -/

/-- What holds of the traffic of a primary, and of every step from it. -/
structure Orderly (x : Traffic) : Prop where
  /-- When no ship and no flush is in progress, what was delivered under a registration and
      what waits for it are the logs shipped since it was made, in order. -/
  atRest : x.job = none → ∀ n r, x.coordinator.standbys.get? n = some r →
    x.arrived n r.generation ++ r.backlog = x.shipped.drop (x.since r.generation)
  /-- Nothing is delivered under a pending registration. -/
  quiet : ∀ n r, x.coordinator.standbys.get? n = some r → r.status = .pending → x.arrived n r.generation = []
  /-- A flush delivers nothing under any registration but its own, and leaves what waits for
      the others. -/
  flush : ∀ y, Lead x y → ∀ node generation, y.job = some (.flush node generation) →
    (∀ n g, ¬ (n = node ∧ g = generation) → y.arrived n g = x.arrived n g) ∧
      ∀ n r, x.coordinator.standbys.get? n = some r → ¬ (n = node ∧ r.generation = generation) →
        ∃ r', y.coordinator.standbys.get? n = some r' ∧ r'.generation = r.generation ∧ r'.backlog = r.backlog

/-- What a dropped registration is not, stays. -/
theorem get?_drop_of_ne {node n : String} {generation : UInt64} {reason : String} {r : Registration}
    (found : c.standbys.get? n = some r) (apart : ¬ (n = node ∧ r.generation = generation)) :
    (c.drop node generation reason).standbys.get? n = some r := by
  simp only [Coordinator.drop]
  split
  · rename_i holds
    rw [OrderedMap.get?_erase, if_neg]
    · exact found
    · rintro rfl
      simp [Coordinator.holds, found] at holds
      exact apart ⟨rfl, holds⟩
  · exact found

theorem Sound.flush_apart (sound : Sound x) {y : Traffic} (step : Lead x y) {node : String} {generation : UInt64}
    (job : y.job = some (.flush node generation)) :
    (∀ n g, ¬ (n = node ∧ g = generation) → y.arrived n g = x.arrived n g) ∧
      ∀ n r, x.coordinator.standbys.get? n = some r → ¬ (n = node ∧ r.generation = generation) →
        ∃ r', y.coordinator.standbys.get? n = some r' ∧ r'.generation = r.generation ∧ r'.backlog = r.backlog := by
  cases step with
  | collect log targets free primary all => cases job
  | release node' generation' d free waiting =>
    cases job
    obtain ⟨mine, there, same, -⟩ := waiting_eq_some waiting
    refine ⟨fun _ _ _ => rfl, fun n r found apart => ⟨r, ?_, rfl, rfl⟩⟩
    have other : n ≠ node := by
      rintro rfl
      rw [there, Option.some.injEq] at found
      exact apart ⟨rfl, found ▸ same⟩
    rw [get?_release, if_neg other]
    exact found
  | send node' generation' log logs rest next =>
    have mine := sound.flush node generation job ⟨node', generation', log :: logs⟩ (next ▸ List.mem_cons_self)
    obtain ⟨rfl, rfl⟩ := mine
    exact ⟨fun n g apart => if_neg apart, fun n r found _ => ⟨r, found, rfl, rfl⟩⟩
  | fail d rest reason next =>
    have mine := sound.flush node generation job d (next ▸ List.mem_cons_self)
    obtain ⟨rfl, rfl⟩ := mine
    exact ⟨fun _ _ _ => rfl, fun n r found apart => ⟨r, get?_drop_of_ne found apart, rfl, rfl⟩⟩
  | stray d rest next unknown => exact ⟨fun _ _ _ => rfl, fun n r found _ => ⟨r, found, rfl, rfl⟩⟩
  | finish now node' generation' rest next =>
    refine ⟨fun _ _ _ => rfl, fun n r found _ => ?_⟩
    simp only [Coordinator.delivered, OrderedMap.get?_modify]
    split
    · rw [found]
      refine ⟨_, rfl, ?_⟩
      dsimp only
      split <;> exact ⟨rfl, rfl⟩
    · exact ⟨r, found, rfl, rfl⟩
  | unlock done => cases job

/-- Whatever the order of its steps, a primary delivers to each registration what it ships, in
    order, without loss and without repetition. -/
theorem Reached.orderly (reached : Reached c x) : Orderly x where
  atRest free n r found := by
    have balance := reached.sound.balance n r found
    rwa [reached.sound.free free, pendingFor_nil, List.append_nil] at balance
  quiet n r found waits := (reached.sound.pending n r found waits).1
  flush _ step _ _ job := reached.sound.flush_apart step job

/-- A log shipped while a snapshot was made, and flushed. -/
theorem Reached.orderly_after_flush : ∃ c x, Reached c x ∧ x.job = none ∧ x.arrived "b" 1 = [[7]] ∧ Orderly x := by
  let c : Coordinator := { Coordinator.ofConfig {} with role := .primary, peers := ⟨[("b", "b:1")]⟩ }
  have begun : Reached c (Traffic.begin c) := .begin rfl
  have allotted := begun.step (.aside (.allot "b" rfl (by decide)))
  have enlisted := allotted.step (.aside (.enlist 0 "b" 1 rfl))
  have shipped := enlisted.step (.lead (.collect [7] [] rfl rfl (List.Perm.refl _)))
  have unlocked := shipped.step (.lead (.unlock rfl))
  have confirmed := unlocked.step (.aside (.confirm 0 "b" 1 _ rfl))
  have released := confirmed.step (.lead (.release "b" 1 _ rfl rfl))
  have sent := released.step (.lead (.send "b" 1 [7] [] [] rfl))
  have finished := sent.step (.lead (.finish 0 "b" 1 [] rfl))
  have idle := finished.step (.lead (.unlock rfl))
  exact ⟨c, _, idle, rfl, rfl, idle.orderly⟩

end Traffic
end Shiplog
