import Shiplog.Proofs.Memories
import Shiplog.Proofs.Traffic

/-!
The programs of a primary as traffic. While a program waits for its surroundings, others take
steps, whatever it holds permitting: they leave alone a number that it was given, and deliver
nothing while it has the ship lock (`Hold.Others`). Registering, shipping, flushing and reaping
are then runs of steps of the traffic, whatever happens in between (`register_runs`,
`ship_runs`, `flush_runs`); one log is shipped by a ship and none by the others
(`collect_runs`, `Quiet`). What a node has received is what it was asked to take and has
acknowledged (`HandsOver`), as surroundings that remember this show (`ship_hands_over`,
`flush_hands_over`).
-/
namespace Shiplog

/-- The address of a peer. -/
def Coordinator.addressOf (c : Coordinator) (node : String) : String := (c.peers.get? node).getD ""

namespace Traffic

open Relation (ReflTransGen)
open Scene (Amid Tracks perform_current perform_change perform_step)

variable {ε α : Type} {x y z : Traffic} {c : Coordinator}

/-! ## What a program holds -/

/-- What a program holds against others. -/
inductive Hold where
  | nothing
  /-- A number that it was given, and whose registration it has yet to make. -/
  | number (generation : UInt64)
  | shipLock

/-- What others may do while a program waits. -/
def Hold.Others : Hold → Traffic → Traffic → Prop
  | .nothing, x, y => Step x y
  | .number generation, x, y => Step x y ∧ y.claimed generation = x.claimed generation
  | .shipLock, x, y => Aside x y

/-- A step of a program, with what it holds before and after. -/
inductive Act (x : Traffic) : Hold → Hold → Traffic → Prop where
  | aside {hold : Hold} {y : Traffic} (step : Aside x y) (same : y.claimed = x.claimed) : Act x hold hold y
  | allot (node : String) (peer : (x.coordinator.peers.get? node).isSome)
      (room : x.coordinator.generations.toNat + 1 < 2 ^ 64) :
      Act x .nothing (.number x.coordinator.allot.generations) (x.allot node)
  | enlist (now : Nat) (node : String) (generation : UInt64) (claimed : x.claimed generation = some node) :
      Act x (.number generation) .nothing (x.enlist now node generation)
  | lock {y : Traffic} (step : Lead x y) (free : x.job = none) : Act x .nothing .shipLock y
  | lead {y : Traffic} (step : Lead x y) : Act x .shipLock .shipLock y
  | unlock (done : x.underway = []) : Act x .shipLock .nothing { x with job := none }

theorem Hold.Others.step {hold : Hold} (others : hold.Others x y) : Step x y := by
  cases hold with
  | nothing => exact others
  | number generation => exact others.1
  | shipLock => exact .aside others

theorem steps_of_others {hold : Hold} (others : ReflTransGen hold.Others x y) : ReflTransGen Step x y :=
  ReflTransGen.mono (fun _ _ other => Hold.Others.step other) x y others

/-- What happens aside leaves the deliveries to the holder of the ship lock. -/
theorem others_keep (others : ReflTransGen Hold.shipLock.Others x y) :
    y.job = x.job ∧ y.underway = x.underway ∧ y.arrived = x.arrived := by
  induction others with
  | refl => exact ⟨rfl, rfl, rfl⟩
  | tail _ step ih =>
    obtain ⟨job, underway, arrived⟩ := ih
    cases (show Aside _ _ from step) <;> exact ⟨job, underway, arrived⟩

theorem others_spare {generation : UInt64} (others : ReflTransGen (Hold.number generation).Others x y) :
    y.claimed generation = x.claimed generation := by
  induction others with
  | refl => rfl
  | tail _ step ih => exact (show _ ∧ _ from step).2.trans ih

/-- A step that ships nothing new. -/
def Quiet (x y : Traffic) : Prop := Step x y ∧ y.shipped = x.shipped

theorem quiet_of_others (others : ReflTransGen Hold.shipLock.Others x y) : ReflTransGen Quiet x y :=
  ReflTransGen.mono (fun _ _ step => ⟨Step.aside step, Aside.same step |>.1⟩) x y others

theorem steps_of_quiet (steps : ReflTransGen Quiet x y) : ReflTransGen Step x y :=
  ReflTransGen.mono (fun _ _ quiet => quiet.1) x y steps

theorem Aside.peers (step : Aside x y) : y.coordinator.peers = x.coordinator.peers := by
  cases step with
  | confirm now node generation c confirmed =>
    unfold Coordinator.confirm? at confirmed
    split at confirmed
    · cases confirmed
      rfl
    · cases confirmed
  | reap now =>
    dsimp only [Coordinator.reap]
    split <;> rfl
  | elsewhere c standbys peers generations => exact peers
  | _ => rfl

theorem Step.peers (step : Step x y) : y.coordinator.peers = x.coordinator.peers := by
  cases step with
  | aside step => exact step.peers
  | lead step => cases step <;> rfl

theorem peers_of_steps (steps : ReflTransGen Step x y) : y.coordinator.peers = x.coordinator.peers := by
  induction steps with
  | refl => rfl
  | tail _ step ih => exact step.peers.trans ih

/-! ## Surroundings -/

/-- What surrounds a coordinator among its threads. A traffic accounts for a scene as the program
    sees it that holds something; what the program does goes into the account, and while it
    waits others act. -/
structure Busy (fits : Hold → Traffic → Scene ε → Prop) (s : Surroundings ε) : Prop where
  coordinator : ∀ {hold x scene}, fits hold x scene → x.coordinator = scene.coordinator
  acts : ∀ {hold hold' x y scene}, fits hold x scene → Act x hold hold' y →
    fits hold' y { scene with coordinator := y.coordinator }
  clock : ∀ scene, ∃ time, (s.now.perform scene).1 = .ok time
  now : ∀ hold, Amid (fits hold) hold.Others s.now
  call : ∀ address request, Amid (fits .shipLock) Hold.shipLock.Others (s.call .shipping address request)
  snapshot : ∀ after, Amid (fits .nothing) Hold.nothing.Others (s.snapshot after)

variable {s : Surroundings ε} {fits : Hold → Traffic → Scene ε → Prop} {scene : Scene ε}

theorem Busy.shipping (busy : Busy fits s) (address : String) (log : Bytes) :
    Amid (fits .shipLock) Hold.shipLock.Others (Peer.ship (s.call .shipping address) log) :=
  Peer.obeys_ship (busy.call address) log

theorem Busy.act (busy : Busy fits s) {hold hold' : Hold} (seen : fits hold x scene) (act : Act x hold hold' y)
    (same : y.coordinator = c) : fits hold' y ⟨c, scene.outside⟩ := same ▸ busy.acts seen act

/-- The time is told, and others have acted. -/
theorem Busy.tells (busy : Busy fits s) {hold : Hold} (seen : fits hold x scene) :
    ∃ now y, s.now.perform scene = (.ok now, (s.now.perform scene).2) ∧ ReflTransGen hold.Others x y ∧
      fits hold y (s.now.perform scene).2 := by
  obtain ⟨y, others, seen'⟩ := busy.now hold scene x seen
  obtain ⟨now, tells⟩ := busy.clock scene
  exact ⟨now, y, Prod.ext tells rfl, others, seen'⟩

/-! ## Registering and reaping -/

theorem reap_runs (busy : Busy fits s) : Amid (fits .nothing) Step (Primary.reap s) := by
  intro scene x seen
  obtain ⟨now, y, tells, others, seen'⟩ := busy.tells seen
  have step : Aside y { y with coordinator := y.coordinator.reap now } := .reap now
  rw [Primary.reap, Action.perform_bind_ok tells, perform_change]
  exact ⟨_, (steps_of_others others).tail (.aside step), busy.act seen' (.aside step rfl) (by rw [busy.coordinator seen'])⟩

/-- A number that a program was given is still its own when it makes the registration. -/
theorem enlist_runs (busy : Busy fits s) {node : String} {generation : UInt64} (seen : fits (.number generation) x scene)
    (claimed : x.claimed generation = some node) : ∃ now y scene', s.now.perform scene = (.ok now, scene') ∧
      ReflTransGen Step x y ∧ y.coordinator = scene'.coordinator ∧ y.claimed generation = some node ∧
      fits .nothing (y.enlist now node generation) ⟨(y.enlist now node generation).coordinator, scene'.outside⟩ ∧
      (Primary.enlist s node generation).perform scene =
        (.ok (), ⟨(y.enlist now node generation).coordinator, scene'.outside⟩) := by
  obtain ⟨now, y, tells, others, seen'⟩ := busy.tells seen
  have still : y.claimed generation = some node := (others_spare others).trans claimed
  have same := busy.coordinator seen'
  refine ⟨now, y, _, tells, steps_of_others others, same, still,
    busy.acts seen' (.enlist now node generation still), ?_⟩
  rw [Primary.enlist, Action.perform_bind_ok tells, perform_change, ← same]
  rfl

theorem perform_confirm {now : Nat} {scene' : Scene ε} (tells : s.now.perform scene = (.ok now, scene')) (node : String)
    (generation : UInt64) : (Primary.confirm s node generation).perform scene =
      match scene'.coordinator.confirm? now node generation with
      | some c => (.ok (), ⟨c, scene'.outside⟩)
      | none => (.error (.replication ("registration of " ++ node ++ " was superseded")), scene') := by
  rw [Primary.confirm, Action.perform_bind_ok tells, perform_step]
  cases scene'.coordinator.confirm? now node generation <;> rfl

theorem confirm_runs (busy : Busy fits s) (node : String) (generation : UInt64) :
    Amid (fits .nothing) Step (Primary.confirm s node generation) := by
  intro scene x seen
  obtain ⟨now, y, tells, others, seen'⟩ := busy.tells seen
  rw [perform_confirm tells, ← busy.coordinator seen']
  cases confirmed : y.coordinator.confirm? now node generation with
  | none => exact ⟨y, steps_of_others others, seen'⟩
  | some c =>
    have step : Aside y { y with coordinator := c } := .confirm now node generation c confirmed
    exact ⟨_, (steps_of_others others).tail (.aside step), busy.act seen' (.aside step rfl) rfl⟩

/-- A node that is welcome is given a number, and nothing else happens. -/
theorem perform_welcome {node : String} (welcome : scene.coordinator.refusal? node = none) :
    (Primary.welcome node).perform scene = (.ok (), scene) := by
  rw [Primary.welcome, Action.perform_bind_ok (perform_current _), welcome]
  rfl

theorem perform_welcome_refused {node : String} {e : Error} (refused : scene.coordinator.refusal? node = some e) :
    (Primary.welcome node).perform scene = (.error e, scene) := by
  rw [Primary.welcome, Action.perform_bind_ok (perform_current _), refused]
  rfl

theorem perform_allot : (Primary.allot : Action (Scene ε) UInt64).perform scene =
    (.ok scene.coordinator.allot.generations, { scene with coordinator := scene.coordinator.allot }) := rfl

theorem bringUp_runs (busy : Busy fits s) (node : String) (generation : UInt64) (after : Position) :
    Amid (fits .nothing) Step (Primary.bringUp s node generation after) := by
  have payload : Amid (fits .nothing) Step (Primary.payload s after) :=
    Action.Obeys.bind (busy.snapshot after) fun _ => (Action.Obeys.ofExcept _).bind fun _ => .ofExcept (.ok _)
  refine payload.outcome.bind fun answer => ?_
  cases answer with
  | error e =>
    refine Action.Obeys.bind (fun scene x seen => ?_) fun _ => .ofExcept (.error e)
    have step : Aside x { x with coordinator := x.coordinator.drop node generation e.message } := .abandon ..
    exact ⟨_, .single (.aside step), busy.act seen (.aside step rfl) (by rw [busy.coordinator seen])⟩
  | ok payload => exact (confirm_runs busy node generation).bind fun _ => .ofExcept (.ok payload)

/-- A node that is welcome is given the next number, others act, and its registration is made. -/
theorem begun_runs (busy : Busy fits s) {node : String} (seen : fits .nothing x scene)
    (welcome : scene.coordinator.refusal? node = none) (room : scene.coordinator.generations.toNat + 1 < 2 ^ 64)
    (after : Position) : ∃ now y scene', Step x (x.allot node) ∧ ReflTransGen Step (x.allot node) y ∧
      s.now.perform ⟨x.coordinator.allot, scene.outside⟩ = (.ok now, scene') ∧ y.coordinator = scene'.coordinator ∧
      y.claimed x.coordinator.allot.generations = some node ∧
      fits .nothing (y.enlist now node x.coordinator.allot.generations)
        ⟨(y.enlist now node x.coordinator.allot.generations).coordinator, scene'.outside⟩ ∧
      (Primary.register s node after).perform scene =
        (Primary.bringUp s node x.coordinator.allot.generations after).perform
          ⟨(y.enlist now node x.coordinator.allot.generations).coordinator, scene'.outside⟩ := by
  have same := busy.coordinator seen
  have peer := peers_of_welcome welcome
  rw [← same] at peer room
  have given := busy.acts seen (.allot node peer room)
  have claimed : (x.allot node).claimed x.coordinator.allot.generations = some node := by
    rw [claimed_allot, if_pos rfl]
  obtain ⟨now, y, scene', tells, steps, same', still, seen', performed⟩ := enlist_runs busy given claimed
  refine ⟨now, y, scene', .aside (.allot node peer room), steps, tells, same', still, seen', ?_⟩
  rw [Primary.register, Action.perform_bind_ok (perform_welcome welcome), Action.perform_bind_ok perform_allot, ← same]
  exact Action.perform_bind_ok performed

/-- Registering a node is a run, if the numbers for registrations do not run out. -/
theorem register_runs (busy : Busy fits s) (node : String) (after : Position) {scene : Scene ε}
    (room : scene.coordinator.generations.toNat + 1 < 2 ^ 64) :
    Tracks (fits .nothing) Step scene ((Primary.register s node after).perform scene).2 := by
  intro x seen
  cases welcome : scene.coordinator.refusal? node with
  | some e =>
    rw [Primary.register, Action.perform_bind, perform_welcome_refused welcome]
    exact ⟨x, .refl, seen⟩
  | none =>
    obtain ⟨now, y, scene', allot, steps, -, -, claimed, seen', goes_on⟩ := begun_runs busy seen welcome room after
    have made : ReflTransGen Step x (y.enlist now node _) :=
      .head allot (steps.tail (.aside (.enlist now node _ claimed)))
    obtain ⟨z, further, ends⟩ := bringUp_runs busy node _ after _ _ seen'
    rw [goes_on]
    exact ⟨z, made.trans further, ends⟩

/-! ## Logs handed over -/

/-- A log that a node has received under a registration. -/
structure Handed where
  node : String
  generation : UInt64
  log : Bytes

/-- The logs among some that a node has received under a registration. -/
def received (handed : List Handed) (node : String) (generation : UInt64) : List Bytes :=
  handed.flatMap fun h => if node = h.node ∧ generation = h.generation then [h.log] else []

/-- Whether the outcome of a call acknowledges a log. -/
def isAcknowledged : Except Error Reply → Bool
  | .ok reply => reply.isOk
  | .error _ => false

/-- Surroundings that count the logs which peers have acknowledged, each with the address where
    the peer was called. -/
structure Counts (count : ε → List (String × Bytes)) (s : Surroundings ε) : Prop where
  now : ∀ scene, count (s.now.perform scene).2.outside = count scene.outside
  call : ∀ address log scene, count ((s.call .shipping address (Peer.shipRequest log)).perform scene).2.outside =
    count scene.outside ++
      if isAcknowledged ((s.call .shipping address (Peer.shipRequest log)).perform scene).1 then [(address, log)] else []

/-- Between two scenes some logs are handed over: the nodes have received them under their
    registrations, and no others, and have acknowledged them, and no others. -/
structure HandsOver (s : Surroundings ε) (x : Traffic) (scene : Scene ε) (y : Traffic) (scene' : Scene ε)
    (handed : List Handed) : Prop where
  arrived : ∀ node generation, y.arrived node generation = x.arrived node generation ++ received handed node generation
  counted : ∀ count, Counts count s → count scene'.outside =
    count scene.outside ++ handed.map fun h => (x.coordinator.addressOf h.node, h.log)

theorem received_append (first second : List Handed) (node : String) (generation : UInt64) :
    received (first ++ second) node generation = received first node generation ++ received second node generation :=
  List.flatMap_append

/-- Nothing is handed over. -/
theorem handsOver_nil {scene' : Scene ε} (arrived : y.arrived = x.arrived)
    (counted : ∀ count, Counts count s → count scene'.outside = count scene.outside) : HandsOver s x scene y scene' [] where
  arrived node generation := by
    rw [arrived]
    exact (List.append_nil _).symm
  counted count counts := by
    rw [counted count counts]
    exact (List.append_nil _).symm

/-- Taking and leaving the ship lock hands nothing over. -/
theorem HandsOver.locked {w : Traffic} {scene' : Scene ε} {handed : List Handed}
    (hands : HandsOver s w ⟨w.coordinator, scene.outside⟩ y scene' handed) (taken : w.arrived = x.arrived)
    (peers : w.coordinator.peers = x.coordinator.peers) (left : z.arrived = y.arrived) :
    HandsOver s x scene z scene' handed where
  arrived node generation := by rw [left, hands.arrived, taken]
  counted count counts := by
    rw [hands.counted count counts]
    simp only [Coordinator.addressOf, peers]

theorem HandsOver.trans {scene' scene'' : Scene ε} {first second : List Handed} (hands : HandsOver s x scene y scene' first)
    (peers : y.coordinator.peers = x.coordinator.peers) (further : HandsOver s y scene' z scene'' second) :
    HandsOver s x scene z scene'' (first ++ second) where
  arrived node generation := by
    rw [further.arrived, hands.arrived, received_append, List.append_assoc]
  counted count counts := by
    rw [further.counted count counts, hands.counted count counts, List.map_append, List.append_assoc]
    simp only [Coordinator.addressOf, peers]

/-- A log is counted just when handing it over succeeds, however often it is tried. -/
theorem Counts.ship {count : ε → List (String × Bytes)} (counts : Counts count s) (address : String) (log : Bytes)
    (scene : Scene ε) : count ((Peer.ship (s.call .shipping address) log).perform scene).2.outside =
      count scene.outside ++
        if ((Peer.ship (s.call .shipping address) log).perform scene).1 = .ok () then [(address, log)] else [] := by
  have once : ∀ scene, count ((Peer.shipOnce (s.call .shipping address) log).perform scene).2.outside =
      count scene.outside ++
        if ((Peer.shipOnce (s.call .shipping address) log).perform scene).1 = .ok () then [(address, log)] else [] := by
    intro scene
    have called := counts.call address log scene
    rw [Peer.shipOnce, Action.perform_bind]
    rcases done : (s.call .shipping address (Peer.shipRequest log)).perform scene with ⟨e | reply, scene'⟩
    · simpa [done, isAcknowledged] using called
    · cases acknowledged : reply.isOk <;> simpa [done, isAcknowledged, Peer.readOk, acknowledged] using called
  have again : ∀ n scene, count ((Peer.retry (Peer.shipOnce (s.call .shipping address) log) n).perform scene).2.outside =
      count scene.outside ++
        if ((Peer.retry (Peer.shipOnce (s.call .shipping address) log) n).perform scene).1 = .ok () then [(address, log)]
        else [] := by
    intro n
    induction n with
    | zero => exact once
    | succ n ih =>
      intro scene
      have tried := once scene
      rw [Peer.retry, Action.perform_tryCatch]
      rcases done : (Peer.shipOnce (s.call .shipping address) log).perform scene with ⟨e | ⟨⟩, scene'⟩
      · have nothing : count scene'.outside = count scene.outside := by simpa [done] using tried
        rw [← nothing]
        exact ih scene'
      · simpa [done] using tried
  exact again _ scene

/-! ## Shipping and flushing -/

/-- The logs of a delivery are handed over in order, until one fails. -/
theorem forM_runs (busy : Busy fits s) {address node : String} (generation : UInt64) (rest : List Delivery)
    (logs : List Bytes) (scene : Scene ε) (x : Traffic) (seen : fits .shipLock x scene)
    (next : x.underway = ⟨node, generation, logs⟩ :: rest) (known : x.coordinator.peers.get? node = some address) :
    ∃ y left handed, ReflTransGen Quiet x y ∧ y.job = x.job ∧
      fits .shipLock y ((logs.forM (Peer.ship (s.call .shipping address))).perform scene).2 ∧
      y.underway = ⟨node, generation, left⟩ :: rest ∧
      HandsOver s x scene y ((logs.forM (Peer.ship (s.call .shipping address))).perform scene).2 handed ∧
      (((logs.forM (Peer.ship (s.call .shipping address))).perform scene).1 = .ok () → left = []) := by
  induction logs generalizing scene x with
  | nil => exact ⟨x, [], [], .refl, rfl, seen, next, handsOver_nil rfl fun _ _ => rfl, fun _ => rfl⟩
  | cons log logs ih =>
    obtain ⟨y, others, seen'⟩ := busy.shipping address log scene x seen
    obtain ⟨job, underway, arrived⟩ := others_keep others
    have peers := peers_of_steps (steps_of_others others)
    have counting := fun count (counts : Counts count s) => Counts.ship counts address log scene
    rw [next] at underway
    rw [Action.perform_forM_cons]
    rcases done : (Peer.ship (s.call .shipping address) log).perform scene with ⟨e | ⟨⟩, scene'⟩
    · rw [done] at seen' counting
      refine ⟨y, log :: logs, [], quiet_of_others others, job, seen', underway, handsOver_nil arrived ?_, by simp⟩
      simpa using counting
    · rw [done] at seen' counting
      have same := busy.coordinator seen'
      have sent := Lead.send node generation log logs rest underway
      have one : HandsOver s x scene
          { y with underway := ⟨node, generation, logs⟩ :: rest, arrived := y.arrive node generation log } scene'
          [⟨node, generation, log⟩] := by
        refine ⟨fun n g => ?_, fun count counts => ?_⟩
        · simp only [arrive, arrived, received, List.flatMap_cons, List.flatMap_nil, List.append_nil]
          split <;> simp
        · simpa [Coordinator.addressOf, known] using counting count counts
      obtain ⟨z, left, handed, further, job', seen'', left_over, hands, all⟩ :=
        ih scene' { y with underway := ⟨node, generation, logs⟩ :: rest, arrived := y.arrive node generation log }
          (busy.act seen' (.lead sent) same) rfl (peers ▸ known)
      exact ⟨z, left, _, ((quiet_of_others others).tail ⟨.lead sent, rfl⟩).trans further, job'.trans job, seen'',
        left_over, one.trans peers hands, all⟩

/-- The first delivery under way is made, or fails. -/
theorem deliver_runs (busy : Busy fits s) (d : Delivery) (rest : List Delivery) (scene : Scene ε) (x : Traffic)
    (seen : fits .shipLock x scene) (next : x.underway = d :: rest) :
    ∃ y handed, ReflTransGen Quiet x y ∧ y.job = x.job ∧ y.underway = rest ∧
      fits .shipLock y ((Primary.deliver s d).perform scene).2 ∧
      HandsOver s x scene y ((Primary.deliver s d).perform scene).2 handed := by
  have same := busy.coordinator seen
  rw [Primary.deliver, Action.perform_bind_ok (perform_current _), ← same]
  cases member : x.coordinator.peers.get? d.node with
  | none =>
    have stray := Lead.stray d rest next member
    exact ⟨_, [], .single ⟨.lead stray, rfl⟩, rfl, rfl, busy.act seen (.lead stray) same, handsOver_nil rfl fun _ _ => rfl⟩
  | some address =>
    obtain ⟨y, left, handed, steps, job, seen', underway, hands, all⟩ :=
      forM_runs busy d.generation rest d.logs scene x seen next member
    have peers := peers_of_steps (steps_of_quiet steps)
    simp only [Action.perform_bind, Action.perform_outcome]
    rcases done : (d.logs.forM (Peer.ship (s.call .shipping address))).perform scene with ⟨e | ⟨⟩, scene'⟩
    · rw [done] at seen' hands
      have fails := Lead.fail _ rest e.message underway
      refine ⟨_, _, steps.tail ⟨.lead fails, rfl⟩, job, rfl, ?_, hands.trans peers (handsOver_nil rfl fun _ _ => rfl)⟩
      exact busy.act seen' (.lead fails) (by rw [busy.coordinator seen'])
    · rw [done] at seen' hands all
      obtain ⟨now, z, tells, others, seen''⟩ := busy.tells seen'
      obtain ⟨job', underway', arrived⟩ := others_keep others
      rw [all rfl] at underway
      have finish := Lead.finish now d.node d.generation rest (underway'.trans underway)
      simp only [Action.perform_bind_ok tells, perform_change]
      refine ⟨_, _, (steps.trans (quiet_of_others others)).tail ⟨.lead finish, rfl⟩, job'.trans job, rfl, ?_,
        hands.trans peers (handsOver_nil arrived fun count counts => counts.now scene')⟩
      exact busy.act seen'' (.lead finish) (by rw [busy.coordinator seen'']; rfl)

/-- All deliveries under way are made, one after the other. -/
theorem deliverAll_runs (busy : Busy fits s) (ds : List Delivery) (scene : Scene ε) (x : Traffic)
    (seen : fits .shipLock x scene) (next : x.underway = ds) :
    ∃ y handed, ReflTransGen Quiet x y ∧ y.underway = [] ∧ fits .shipLock y ((Primary.deliverAll s ds).perform scene).2 ∧
      HandsOver s x scene y ((Primary.deliverAll s ds).perform scene).2 handed ∧
      ∃ failures, ((Primary.deliverAll s ds).perform scene).1 = .ok failures := by
  induction ds generalizing scene x with
  | nil => exact ⟨x, [], .refl, next, seen, handsOver_nil rfl fun _ _ => rfl, [], rfl⟩
  | cons d rest ih =>
    obtain ⟨y, handed, steps, -, underway, seen', hands⟩ := deliver_runs busy d rest scene x seen next
    obtain ⟨z, more, further, empty, ends, hands', failures, answer⟩ := ih _ y seen' underway
    have peers := peers_of_steps (steps_of_quiet steps)
    refine ⟨z, handed ++ more, steps.trans further, empty, ?_⟩
    rw [Primary.deliverAll, Action.perform_bind, Action.perform_outcome]
    rcases done : (Primary.deliver s d).perform scene with ⟨_ | _, scene'⟩
    · rw [done] at ends answer hands hands'
      simp only [Action.perform_bind]
      rcases later : (Primary.deliverAll s rest).perform scene' with ⟨answer', scene''⟩
      rw [later] at ends answer hands'
      obtain rfl : answer' = .ok failures := answer
      exact ⟨ends, hands.trans peers hands', _, rfl⟩
    · rw [done] at ends answer hands hands'
      exact ⟨ends, hands.trans peers hands', failures, answer⟩

/-- A primary ships a log, once the ship lock is free: it collects its targets, and a run that
    ships nothing else makes the deliveries. -/
theorem collect_runs (busy : Busy fits s) (log : Bytes) (scene : Scene ε) (seen : fits .nothing x scene)
    (free : x.job = none) (primary : scene.coordinator.role.isPrimary = true) : ∃ y z handed, Lead x y ∧
      y.shipped = x.shipped ++ [log] ∧ ReflTransGen Quiet y z ∧ z.job = none ∧
      fits .nothing z ((Primary.ship s log).perform scene).2 ∧
      HandsOver s x scene z ((Primary.ship s log).perform scene).2 handed ∧
      ((∃ count, ((Primary.ship s log).perform scene).1 = .ok count) ∨
        ∃ failures, ((Primary.ship s log).perform scene).1 = .error (.shipFailed failures)) := by
  rw [Primary.ship, Action.perform_bind, perform_step]
  simp only [primary, ↓reduceIte]
  rw [← busy.coordinator seen] at primary ⊢
  have collected := Lead.collect log (x.coordinator.deliveries log) free primary (List.Perm.refl _)
  have locked := busy.act seen (.lock collected free) rfl
  obtain ⟨z, handed, steps, empty, seen', hands, failures, answer⟩ :=
    deliverAll_runs busy (x.coordinator.deliveries log) _ _ locked rfl
  have same := busy.coordinator seen'
  have unlocked := busy.act seen' (.unlock empty) same
  have whole := hands.locked (x := x) (z := { z with job := none }) rfl rfl rfl
  refine ⟨_, _, handed, collected, rfl, steps.tail ⟨.lead (.unlock empty), rfl⟩, rfl, ?_⟩
  rw [Action.perform_bind]
  rcases done : (Primary.deliverAll s (x.coordinator.deliveries log)).perform
    { scene with coordinator := x.coordinator.collect log } with ⟨answer', scene'⟩
  rw [done] at answer unlocked whole
  obtain rfl : answer' = .ok failures := answer
  cases failures with
  | nil => exact ⟨unlocked, whole, .inl ⟨_, rfl⟩⟩
  | cons failure rest => exact ⟨unlocked, whole, .inr ⟨_, rfl⟩⟩

/-- Shipping a log, once the ship lock is free, is a run that leaves it free. -/
theorem ship_runs (busy : Busy fits s) (log : Bytes) (scene : Scene ε) (seen : fits .nothing x scene)
    (free : x.job = none) : ∃ y handed, ReflTransGen Step x y ∧ y.job = none ∧
      fits .nothing y ((Primary.ship s log).perform scene).2 ∧
      HandsOver s x scene y ((Primary.ship s log).perform scene).2 handed := by
  by_cases primary : scene.coordinator.role.isPrimary = true
  · obtain ⟨y, z, handed, collected, -, steps, free', seen', hands, -⟩ := collect_runs busy log scene seen free primary
    exact ⟨z, handed, .head (.lead collected) (steps_of_quiet steps), free', seen', hands⟩
  · refine ⟨x, [], .refl, free, ?_⟩
    rw [Primary.ship, Action.perform_bind, perform_step]
    simp only [primary, Bool.false_eq_true, ↓reduceIte]
    exact ⟨seen, handsOver_nil rfl fun _ _ => rfl⟩

/-- A flush, once the ship lock is free, is a run that leaves it free. -/
theorem flush_runs (busy : Busy fits s) (node : String) (generation : UInt64) (scene : Scene ε)
    (seen : fits .nothing x scene) (free : x.job = none) : ∃ y handed, ReflTransGen Step x y ∧ y.job = none ∧
      fits .nothing y ((Primary.flush s node generation).perform scene).2 ∧
      HandsOver s x scene y ((Primary.flush s node generation).perform scene).2 handed := by
  rw [Primary.flush, Action.perform_bind, perform_step]
  cases waiting : scene.coordinator.waiting? node generation with
  | none =>
    simp only
    exact ⟨x, [], .refl, free, seen, handsOver_nil rfl fun _ _ => rfl⟩
  | some d =>
    simp only
    rw [← busy.coordinator seen] at waiting ⊢
    have released := Lead.release node generation d free waiting
    have locked := busy.act seen (.lock released free) rfl
    obtain ⟨y, handed, steps, -, underway, seen', hands⟩ := deliver_runs busy d [] _ _ locked rfl
    have same := busy.coordinator seen'
    have unlocked := busy.act seen' (.unlock underway) same
    rw [Action.perform_bind, Action.perform_outcome]
    exact ⟨_, _, (ReflTransGen.head (.lead released) (steps_of_quiet steps)).tail (.lead (.unlock underway)), rfl, unlocked,
      hands.locked rfl rfl rfl⟩

/-! ## What is remembered of it -/

theorem Busy.remembering {ν : Type} (busy : Busy fits s) (note : Event → Coordinator → List ν) :
    Busy (fun hold x scene => fits hold x scene.forget) (s.remembering note) where
  coordinator seen := busy.coordinator seen
  acts seen act := busy.acts seen act
  clock scene := busy.clock scene.forget
  now hold scene := busy.now hold scene.forget
  call address request scene := busy.call address request scene.forget
  snapshot after scene := busy.snapshot after scene.forget

/-- A log that a peer has acknowledged, with the address where it was called. -/
def handedOver : Event → Coordinator → List (String × Bytes)
  | .answers .shipping address request outcome, _ =>
    if isAcknowledged outcome then (request.args[1]?).toList.map fun log => (address, log) else []
  | _, _ => []

theorem counts_remembering (s : Surroundings ε) : Counts Prod.snd (s.remembering handedOver) where
  now _ := by
    rw [Surroundings.remembering, Scene.unnoted, Scene.perform_noted, List.append_nil, List.append_nil]
  call address log scene := by
    rw [Surroundings.remembering, Scene.perform_noted]
    change _ ++ [] ++ _ = _
    rw [List.append_nil]
    rfl

/-- What a run hands over is what is remembered of it, and it runs as it does without. -/
theorem remembered_of_runs {act : Action (Scene (ε × List (String × Bytes))) α} {act' : Action (Scene ε) α}
    (mirrors : Scene.Mirrors act act')
    (runs : ∃ y handed, ReflTransGen Step x y ∧ y.job = none ∧
      fits .nothing y (act.perform ⟨scene.coordinator, scene.outside, []⟩).2.forget ∧
      HandsOver (s.remembering handedOver) x ⟨scene.coordinator, scene.outside, []⟩ y
        (act.perform ⟨scene.coordinator, scene.outside, []⟩).2 handed) :
    ∃ y handed, ReflTransGen Step x y ∧ y.job = none ∧ fits .nothing y (act'.perform scene).2 ∧
      (∀ node generation, y.arrived node generation = x.arrived node generation ++ received handed node generation) ∧
      (act.perform ⟨scene.coordinator, scene.outside, []⟩).2.outside.2 =
        handed.map fun h => (x.coordinator.addressOf h.node, h.log) := by
  obtain ⟨y, handed, steps, free, seen, hands⟩ := runs
  have same : (act'.perform scene).2 = (act.perform ⟨scene.coordinator, scene.outside, []⟩).2.forget :=
    congrArg Prod.snd (mirrors ⟨scene.coordinator, scene.outside, []⟩)
  rw [← same] at seen
  exact ⟨y, handed, steps, free, seen, hands.arrived, hands.counted _ (counts_remembering s)⟩

/-- While a log is shipped, the logs that arrive are those that peers acknowledge. -/
theorem ship_hands_over (busy : Busy fits s) (log : Bytes) (scene : Scene ε) (seen : fits .nothing x scene)
    (free : x.job = none) : ∃ y handed, ReflTransGen Step x y ∧ y.job = none ∧
      fits .nothing y ((Primary.ship s log).perform scene).2 ∧
      (∀ node generation, y.arrived node generation = x.arrived node generation ++ received handed node generation) ∧
      ((Primary.ship (s.remembering handedOver) log).perform ⟨scene.coordinator, scene.outside, []⟩).2.outside.2 =
        handed.map fun h => (x.coordinator.addressOf h.node, h.log) :=
  remembered_of_runs ((mirrored_remembering handedOver s).ship log)
    (ship_runs (busy.remembering handedOver) log ⟨scene.coordinator, scene.outside, []⟩ seen free)

/-- While what waits for a registration is flushed, the logs that arrive are those that its peer
    acknowledges. -/
theorem flush_hands_over (busy : Busy fits s) (node : String) (generation : UInt64) (scene : Scene ε)
    (seen : fits .nothing x scene) (free : x.job = none) : ∃ y handed, ReflTransGen Step x y ∧ y.job = none ∧
      fits .nothing y ((Primary.flush s node generation).perform scene).2 ∧
      (∀ node generation, y.arrived node generation = x.arrived node generation ++ received handed node generation) ∧
      ((Primary.flush (s.remembering handedOver) node generation).perform
          ⟨scene.coordinator, scene.outside, []⟩).2.outside.2 =
        handed.map fun h => (x.coordinator.addressOf h.node, h.log) :=
  remembered_of_runs ((mirrored_remembering handedOver s).flush node generation)
    (flush_runs (busy.remembering handedOver) node generation ⟨scene.coordinator, scene.outside, []⟩ seen free)

end Traffic
end Shiplog
