import Shiplog.Proofs.Registrations

/-!
A log shipped to all standbys. Each standby has a line of its own, on which an answer depends
on nothing but the requests made there (`Lines`); what comes of the logs handed over on it is
then an account of that line alone (`handAll`). So a delivery that fails neither stops nor
changes another, and a ship comes to the same in whatever order it makes its deliveries
(`Lines.ship_fans_out`).
-/
namespace Shiplog

namespace Primary

open Function (update)

variable {ε : Type}

/-! ## Logs handed over on a line -/

section
variable (answer : List Request → Except Error Reply)

/-- Whether the last of some requests hands its log over. -/
def acknowledged (asked : List Request) : Except Error Unit := do
  Peer.readOk Peer.shipCommand (← answer asked)

/-- What comes of a log, and the requests made by then: it is asked for until it is acknowledged,
    and some number of times again at most. -/
def handOver (log : Bytes) : (again : Nat) → (asked : List Request) → Except Error Unit × List Request
  | 0, asked => (acknowledged answer (asked ++ [Peer.shipRequest log]), asked ++ [Peer.shipRequest log])
  | again + 1, asked =>
    match acknowledged answer (asked ++ [Peer.shipRequest log]) with
    | .ok () => (.ok (), asked ++ [Peer.shipRequest log])
    | .error _ => handOver log again (asked ++ [Peer.shipRequest log])

/-- What comes of some logs, and the requests made by then: each is handed over in turn, until one
    is not acknowledged. -/
def handAll : List Bytes → (asked : List Request) → Except Error Unit × List Request
  | [], asked => (.ok (), asked)
  | log :: rest, asked =>
    match handOver answer log (Peer.shipAttempts - 1) asked with
    | (.ok (), asked') => handAll rest asked'
    | (.error e, asked') => (.error e, asked')

variable {answer} {asked : List Request} {log : Bytes} {logs : List Bytes}

theorem prefix_handOver (log : Bytes) (again : Nat) (asked : List Request) :
    asked ++ [Peer.shipRequest log] <+: (handOver answer log again asked).2 := by
  induction again generalizing asked with
  | zero => exact List.prefix_rfl
  | succ again ih =>
    rw [handOver]
    split
    · exact List.prefix_rfl
    · exact (List.prefix_append _ _).trans (ih _)

/-- A log that is not acknowledged has been asked for as often as may be. -/
theorem handOver_error {again : Nat} {e : Error} (failed : (handOver answer log again asked).1 = .error e) :
    (handOver answer log again asked).2 = asked ++ List.replicate (again + 1) (Peer.shipRequest log) := by
  induction again generalizing asked with
  | zero => rfl
  | succ again ih =>
    rw [handOver] at failed ⊢
    split at failed
    · cases failed
    · rw [ih failed, List.append_assoc]
      rfl

theorem prefix_handAll (logs : List Bytes) (asked : List Request) : asked <+: (handAll answer logs asked).2 := by
  induction logs generalizing asked with
  | nil => exact List.prefix_rfl
  | cons log rest ih =>
    have first : asked <+: (handOver answer log (Peer.shipAttempts - 1) asked).2 :=
      (List.prefix_append asked [Peer.shipRequest log]).trans (prefix_handOver log _ asked)
    rw [handAll]
    split
    · rename_i asked' handed
      rw [handed] at first
      exact first.trans (ih asked')
    · rename_i e asked' handed
      rwa [handed] at first

/-- The first log is asked for in any case. -/
theorem prefix_handAll_cons (log : Bytes) (rest : List Bytes) (asked : List Request) :
    asked ++ [Peer.shipRequest log] <+: (handAll answer (log :: rest) asked).2 := by
  have first : asked ++ [Peer.shipRequest log] <+: (handOver answer log (Peer.shipAttempts - 1) asked).2 :=
    prefix_handOver log _ asked
  rw [handAll]
  split
  · rename_i asked' handed
    rw [handed] at first
    exact first.trans (prefix_handAll rest asked')
  · rename_i e asked' handed
    rwa [handed] at first

/-- Behind the first log that is not acknowledged nothing is asked for. -/
theorem handAll_error {e : Error} (failed : (handAll answer logs asked).1 = .error e) :
    ∃ done log rest, logs = done ++ log :: rest ∧ (handAll answer done asked).1 = .ok () ∧
      (handAll answer logs asked).2 =
        (handAll answer done asked).2 ++ List.replicate Peer.shipAttempts (Peer.shipRequest log) := by
  induction logs generalizing asked with
  | nil => cases failed
  | cons log logs ih =>
    rw [handAll] at failed ⊢
    rcases handed : handOver answer log (Peer.shipAttempts - 1) asked with ⟨e' | ⟨⟩, asked'⟩
    · have requests := handOver_error (congrArg Prod.fst handed)
      rw [handed] at requests
      exact ⟨[], log, logs, rfl, rfl, requests⟩
    · rw [handed] at failed
      obtain ⟨done, first, rest, rfl, acknowledged, requests⟩ := ih failed
      refine ⟨log :: done, first, rest, rfl, ?_, ?_⟩
      · rw [handAll, handed]
        exact acknowledged
      · rw [handAll, handed]
        exact requests

end

/-! ## Deliveries -/

/-- The surroundings of a ship: an account of the requests made on each line decides what is
    answered there, and neither calls nor the clock touch the coordinator. -/
structure Lines (s : Surroundings ε) (asked : ε → String → List Request)
    (answer : String → List Request → Except Error Reply) : Prop where
  call : ∀ address request scene, ∃ outside, (s.call .shipping address request).perform scene =
      (answer address (asked scene.outside address ++ [request]), ⟨scene.coordinator, outside⟩) ∧
    asked outside = update (asked scene.outside) address (asked scene.outside address ++ [request])
  now : ∀ scene, ∃ time outside, s.now.perform scene = (.ok time, ⟨scene.coordinator, outside⟩) ∧
    asked outside = asked scene.outside

variable {s : Surroundings ε} {asked : ε → String → List Request} {answer : String → List Request → Except Error Reply}
  {scene : Scene ε} {address : String} {c c' : Coordinator} {d : Delivery} {log : Bytes}

theorem Lines.retry (lines : Lines s asked answer) (address : String) (log : Bytes) (again : Nat) (scene : Scene ε) :
    ∃ outside, (Peer.retry (Peer.shipOnce (s.call .shipping address) log) again).perform scene =
        ((handOver (answer address) log again (asked scene.outside address)).1, ⟨scene.coordinator, outside⟩) ∧
      asked outside = update (asked scene.outside) address
        (handOver (answer address) log again (asked scene.outside address)).2 := by
  have once : ∀ scene : Scene ε, ∃ outside, (Peer.shipOnce (s.call .shipping address) log).perform scene =
      (acknowledged (answer address) (asked scene.outside address ++ [Peer.shipRequest log]),
        ⟨scene.coordinator, outside⟩) ∧
      asked outside = update (asked scene.outside) address (asked scene.outside address ++ [Peer.shipRequest log]) := by
    intro scene
    obtain ⟨outside, called, counted⟩ := lines.call address (Peer.shipRequest log) scene
    refine ⟨outside, ?_, counted⟩
    rw [Peer.shipOnce, Action.perform_bind, called, acknowledged]
    cases answer address (asked scene.outside address ++ [Peer.shipRequest log]) <;> rfl
  induction again generalizing scene with
  | zero => exact once scene
  | succ again ih =>
    obtain ⟨outside, called, counted⟩ := once scene
    rw [Peer.retry, Action.perform_tryCatch, called, handOver]
    cases acknowledged (answer address) (asked scene.outside address ++ [Peer.shipRequest log]) with
    | ok => exact ⟨outside, rfl, counted⟩
    | error e =>
      obtain ⟨outside', repeats, counted'⟩ := ih ⟨scene.coordinator, outside⟩
      simp only [counted, Function.update_self, Function.update_idem] at repeats counted'
      exact ⟨outside', repeats, counted'⟩

theorem Lines.handAll (lines : Lines s asked answer) (address : String) (logs : List Bytes) (scene : Scene ε) :
    ∃ outside, (logs.forM (Peer.ship (s.call .shipping address))).perform scene =
        ((handAll (answer address) logs (asked scene.outside address)).1, ⟨scene.coordinator, outside⟩) ∧
      asked outside = update (asked scene.outside) address
        (Primary.handAll (answer address) logs (asked scene.outside address)).2 := by
  induction logs generalizing scene with
  | nil => exact ⟨scene.outside, rfl, (Function.update_eq_self _ _).symm⟩
  | cons log rest ih =>
    obtain ⟨outside, handed, counted⟩ := lines.retry address log (Peer.shipAttempts - 1) scene
    rw [Action.perform_forM_cons, Peer.ship, handed, Primary.handAll]
    rcases tried : handOver (answer address) log (Peer.shipAttempts - 1) (asked scene.outside address) with
      ⟨e | ⟨⟩, requests⟩
    · rw [tried] at counted
      exact ⟨outside, rfl, counted⟩
    · rw [tried] at counted
      obtain ⟨outside', goes, counted'⟩ := ih ⟨scene.coordinator, outside⟩
      simp only [counted, Function.update_self, Function.update_idem] at goes counted'
      exact ⟨outside', goes, counted'⟩

/-- What a delivery makes of a coordinator. -/
def settle (time : Nat) (d : Delivery) (outcome : Except Error Unit) (c : Coordinator) : Coordinator :=
  match outcome with
  | .ok () => c.delivered time d
  | .error e => c.drop d.node d.generation e.message

theorem Lines.deliver (lines : Lines s asked answer) (peer : scene.coordinator.peers.get? d.node = some address) :
    ∃ time outside, (deliver s d).perform scene =
        ((Primary.handAll (answer address) d.logs (asked scene.outside address)).1,
          ⟨settle time d (Primary.handAll (answer address) d.logs (asked scene.outside address)).1 scene.coordinator,
            outside⟩) ∧
      asked outside = update (asked scene.outside) address
        (Primary.handAll (answer address) d.logs (asked scene.outside address)).2 := by
  obtain ⟨outside, handed, counted⟩ := lines.handAll address d.logs scene
  rw [Primary.deliver, Action.perform_bind, Scene.perform_current]
  simp only [peer]
  rw [Action.perform_bind, Action.perform_outcome, handed]
  rcases tried : Primary.handAll (answer address) d.logs (asked scene.outside address) with ⟨e | ⟨⟩, requests⟩
  · rw [tried] at counted
    exact ⟨0, outside, rfl, counted⟩
  · rw [tried] at counted
    obtain ⟨time, outside', told, same⟩ := lines.now ⟨scene.coordinator, outside⟩
    refine ⟨time, outside', ?_, same.trans counted⟩
    simp only [Action.perform_bind, told, Scene.perform_change, settle]

/-- What is left of a delivery: a standby that has all logs was heard of, any other is given up. -/
def Handled (d : Delivery) (outcome : Except Error Unit) (c c' : Coordinator) : Prop :=
  match outcome with
  | .ok () => (∃ time, c'.standbys.get? d.node = (c.standbys.get? d.node).map fun r => { r with lastSeen := time }) ∧
      c'.lastShips.get? d.node = some .delivered
  | .error e => c'.standbys.get? d.node = none ∧ c'.lastShips.get? d.node = some (.failed e.message)

/-- A coordinator that knows the same of a node as another. -/
def SameOf (node : String) (c c' : Coordinator) : Prop :=
  c'.standbys.get? node = c.standbys.get? node ∧ c'.lastShips.get? node = c.lastShips.get? node

/-- A coordinator that differs at most in its standbys and the outcomes of shipping. -/
def SameRest (c c' : Coordinator) : Prop := c' = { c with standbys := c'.standbys, lastShips := c'.lastShips }

theorem SameRest.trans {c'' : Coordinator} (first : SameRest c c') (second : SameRest c' c'') : SameRest c c'' := by
  unfold SameRest at *
  rw [second, first]

theorem settle_rest (time : Nat) (d : Delivery) (outcome : Except Error Unit) (c : Coordinator) :
    SameRest c (settle time d outcome c) := by
  rcases outcome with e | ⟨⟩ <;> rfl

theorem settle_handled (time : Nat) (outcome : Except Error Unit) {r : Registration}
    (registered : c.standbys.get? d.node = some r) (same : r.generation = d.generation) :
    Handled d outcome c (settle time d outcome c) := by
  rcases outcome with e | ⟨⟩
  · have holds : c.holds d.node d.generation = true := Coordinator.holds_iff.mpr ⟨r, registered, same⟩
    simp [Handled, settle, Coordinator.drop, holds, OrderedMap.get?_erase, OrderedMap.get?_insert]
  · refine ⟨⟨time, ?_⟩, ?_⟩
    · simp [settle, Coordinator.delivered, OrderedMap.get?_modify, registered, same]
    · simp [settle, Coordinator.delivered, OrderedMap.get?_insert]

theorem settle_other (time : Nat) (outcome : Except Error Unit) {node : String} (other : node ≠ d.node) :
    SameOf node c (settle time d outcome c) := by
  rcases outcome with e | ⟨⟩
  · refine ⟨?_, by simp [settle, Coordinator.drop, OrderedMap.get?_insert, other]⟩
    simp only [settle, Coordinator.drop]
    split
    · rw [OrderedMap.get?_erase, if_neg other]
    · rfl
  · simp [SameOf, settle, Coordinator.delivered, OrderedMap.get?_modify, OrderedMap.get?_insert, other]

/-- What is left of a delivery does not change with what is done for others. -/
theorem Handled.congr {c₁ c₁' : Coordinator} {outcome : Except Error Unit} (handled : Handled d outcome c c')
    (before : SameOf d.node c₁ c) (after : SameOf d.node c' c₁') : Handled d outcome c₁ c₁' := by
  rcases outcome with e | ⟨⟩
  · exact ⟨after.1.trans handled.1, after.2.trans handled.2⟩
  · obtain ⟨⟨time, found⟩, shipped⟩ := handled
    refine ⟨⟨time, ?_⟩, after.2.trans shipped⟩
    rw [after.1, found, before.1]

/-- The failure that a delivery with an outcome is reported by. -/
def failure? (outcome : Delivery → Except Error Unit) (d : Delivery) : Option (String × Error) :=
  match outcome d with
  | .ok () => none
  | .error e => some (d.node, e)

/-- What a delivery comes to alone, on the line of its node with the requests made there before. -/
def alone (answer : String → List Request → Except Error Reply) (line : String → String)
    (before : String → List Request) (d : Delivery) : Except Error Unit × List Request :=
  handAll (answer (line d.node)) d.logs (before (line d.node))

/-- What some deliveries leave: what each comes to alone, and everything else as it was. -/
structure Made (answer : String → List Request → Except Error Reply) (line : String → String)
    (before : String → List Request) (ds : List Delivery) (c c' : Coordinator) (asked asked' : String → List Request) :
    Prop where
  handled : ∀ d ∈ ds, Handled d (alone answer line before d).1 c c' ∧
    asked' (line d.node) = (alone answer line before d).2
  others : ∀ node, node ∉ ds.map Delivery.node → SameOf node c c'
  quiet : ∀ address, (address ∉ ds.map fun d => line d.node) → asked' address = asked address
  rest : SameRest c c'

/-- A delivery, and others to other nodes after it. -/
theorem Made.cons {line : String → String} {before account account' : String → List Request} {ds : List Delivery}
    {time : Nat} (first : ∃ r, c.standbys.get? d.node = some r ∧ r.generation = d.generation)
    (nodes : ((d :: ds).map Delivery.node).Nodup) (apart : ((d :: ds).map fun d => line d.node).Nodup)
    (made : Made answer line before ds (settle time d (alone answer line before d).1 c) c'
      (update account (line d.node) (alone answer line before d).2) account') :
    Made answer line before (d :: ds) c c' account account' := by
  have newNode := (List.nodup_cons.mp nodes).1
  have newLine := (List.nodup_cons.mp apart).1
  obtain ⟨r, here, same⟩ := first
  generalize outcome : (alone answer line before d).1 = result at made
  constructor
  case handled =>
    intro d' member
    rcases List.mem_cons.mp member with rfl | member
    · rw [outcome]
      refine ⟨(settle_handled time result here same).congr ⟨rfl, rfl⟩ (made.others d'.node newNode), ?_⟩
      rw [made.quiet _ newLine, Function.update_self]
    · have other : d'.node ≠ d.node := fun same => newNode (same ▸ List.mem_map_of_mem member)
      obtain ⟨handled, requests⟩ := made.handled d' member
      exact ⟨handled.congr (settle_other time result other) ⟨rfl, rfl⟩, requests⟩
  case others =>
    intro node absent
    obtain ⟨other, absent⟩ := not_or.mp (List.mem_cons.not.mp absent)
    obtain ⟨kept, shipped⟩ : SameOf node c (settle time d result c) := settle_other time result other
    obtain ⟨kept', shipped'⟩ := made.others node absent
    exact ⟨kept'.trans kept, shipped'.trans shipped⟩
  case quiet =>
    intro address absent
    obtain ⟨other, absent⟩ := not_or.mp (List.mem_cons.not.mp absent)
    rw [made.quiet address absent, Function.update_of_ne other]
  case rest => exact (settle_rest time d result c).trans made.rest

/-- Deliveries to different nodes, each on a line of its own, come to what each comes to alone. -/
theorem Lines.deliverAll (lines : Lines s asked answer) (ds : List Delivery) (line : String → String)
    (before : String → List Request) (scene : Scene ε)
    (peers : ∀ d ∈ ds, scene.coordinator.peers.get? d.node = some (line d.node))
    (registered : ∀ d ∈ ds, ∃ r, scene.coordinator.standbys.get? d.node = some r ∧ r.generation = d.generation)
    (fresh : ∀ d ∈ ds, asked scene.outside (line d.node) = before (line d.node))
    (nodes : (ds.map Delivery.node).Nodup) (apart : (ds.map fun d => line d.node).Nodup) :
    ∃ c' outside, (deliverAll s ds).perform scene =
        (.ok (ds.filterMap (failure? fun d => (alone answer line before d).1)), ⟨c', outside⟩) ∧
      Made answer line before ds scene.coordinator c' (asked scene.outside) (asked outside) := by
  induction ds generalizing scene with
  | nil => exact ⟨scene.coordinator, scene.outside, rfl, by simp, fun _ _ => ⟨rfl, rfl⟩, fun _ _ => rfl, rfl⟩
  | cons d rest ih =>
    obtain ⟨time, outside₁, first, counted⟩ := lines.deliver (peers d List.mem_cons_self)
    rw [fresh d List.mem_cons_self, ← alone] at first counted
    have settled := settle_rest time d (alone answer line before d).1 scene.coordinator
    -- What the first delivery leaves to the others is what they had before.
    obtain ⟨c', outside, later, made⟩ := ih ⟨settle time d _ scene.coordinator, outside₁⟩
      (fun d' member => by
        rw [settled]
        exact peers d' (List.mem_cons_of_mem d member))
      (fun d' member => by
        have other : d'.node ≠ d.node := fun same => (List.nodup_cons.mp nodes).1 (same ▸ List.mem_map_of_mem member)
        obtain ⟨r', there, number⟩ := registered d' (List.mem_cons_of_mem d member)
        exact ⟨r', ((settle_other time _ other).1).trans there, number⟩)
      (fun d' member => by
        have other : line d'.node ≠ line d.node := fun same =>
          (List.nodup_cons.mp apart).1 (List.mem_map.mpr ⟨d', member, same⟩)
        rw [counted, Function.update_of_ne other]
        exact fresh d' (List.mem_cons_of_mem d member))
      (List.nodup_cons.mp nodes).2 (List.nodup_cons.mp apart).2
    rw [counted] at made
    refine ⟨c', outside, ?_, .cons (registered d List.mem_cons_self) nodes apart made⟩
    rw [Primary.deliverAll, Action.perform_bind, Action.perform_outcome, first, List.filterMap_cons, failure?]
    rcases result : (alone answer line before d).1 with e | ⟨⟩
    · rw [result] at later
      simp only [Action.perform_bind, later, Action.perform_pure]
    · rw [result] at later
      exact later

/-! ## Shipping -/

/-- What a ship tells of some deliveries and of those that failed. -/
def report (count : Nat) : List (String × Error) → Except Error Nat
  | [] => .ok count
  | failures => .error (.shipFailed (failures.map failureText))

theorem perform_report (count : Nat) (failures : List (String × Error)) (scene : Scene ε) :
    (match failures with
      | [] => return count
      | failures => throw (.shipFailed (failures.map failureText)) : Action (Scene ε) Nat).perform scene =
        (report count failures, scene) := by
  cases failures <;> rfl

/-- A log shipped with the deliveries made in some arrangement. -/
def shipIn (s : Surroundings ε) (arrange : List Delivery → List Delivery) (log : Bytes) : Action (Scene ε) Nat := do
  let deliveries ← Scene.step fun c =>
    if c.role.isPrimary then (.ok (arrange (c.deliveries log)), c.collect log) else (.error .notPrimary, c)
  match ← deliverAll s deliveries with
  | [] => return deliveries.length
  | failures => throw (.shipFailed (failures.map failureText))

/-- The names stand in ascending order. -/
theorem shipIn_id (s : Surroundings ε) (log : Bytes) : shipIn s id log = ship s log := rfl

/-- A primary whose standbys are peers, those that are ready each with an address of its own. -/
structure Equipped (c : Coordinator) : Prop where
  primary : c.role = .primary
  sorted : c.standbys.Sorted
  known : ∀ node r, c.standbys.get? node = some r → ∃ address, c.peers.get? node = some address
  apart : ∀ node ∈ c.readyStandbys, ∀ node' ∈ c.readyStandbys, c.addressOf node = c.addressOf node' → node = node'

/-- What comes of the logs for a ready standby: those that wait for it, and the one shipped. -/
def handing (answer : String → List Request → Except Error Reply) (before : String → List Request) (log : Bytes)
    (c : Coordinator) (node : String) (r : Registration) : Except Error Unit × List Request :=
  handAll (answer (c.addressOf node)) (r.backlog ++ [log]) (before (c.addressOf node))

section
variable (answer : String → List Request → Except Error Reply) (before : String → List Request) (log : Bytes)

/-- What a ship reports: the number of ready standbys if each has acknowledged all its logs, and
    otherwise one failure for each that has not. -/
structure Reported (c : Coordinator) (result : Except Error Nat) : Prop where
  success : (∃ n, result = .ok n) ↔ ∀ node r, c.standbys.get? node = some r → r.status = .ready →
    (handing answer before log c node r).1 = .ok ()
  count : ∀ n, result = .ok n → n = c.readyStandbys.length
  failures : ∀ e, result = .error e → ∃ failures : List (String × Error), e = .shipFailed (failures.map failureText) ∧
    (failures.map Prod.fst).Nodup ∧ ∀ node e, (node, e) ∈ failures ↔
      ∃ r, c.standbys.get? node = some r ∧ r.status = .ready ∧ (handing answer before log c node r).1 = .error e

/-- What a ship leaves, with the requests made by then on each line. -/
structure FannedOut (c c' : Coordinator) (after : String → List Request) : Prop where
  /-- A standby that has acknowledged its logs stays ready, with none waiting. -/
  delivered : ∀ node r, c.standbys.get? node = some r → r.status = .ready →
    (handing answer before log c node r).1 = .ok () →
      (∃ time, c'.standbys.get? node = some { r with backlog := [], lastSeen := time }) ∧
        c'.lastShips.get? node = some .delivered
  /-- One that has not is given up, and nothing comes behind its first log that was not
      acknowledged. -/
  failed : ∀ node r e, c.standbys.get? node = some r → r.status = .ready →
    (handing answer before log c node r).1 = .error e →
      c'.standbys.get? node = none ∧ c'.lastShips.get? node = some (.failed e.message) ∧
        ∃ done first rest, r.backlog ++ [log] = done ++ first :: rest ∧
          (handAll (answer (c.addressOf node)) done (before (c.addressOf node))).1 = .ok () ∧
          after (c.addressOf node) = (handAll (answer (c.addressOf node)) done (before (c.addressOf node))).2 ++
            List.replicate Peer.shipAttempts (Peer.shipRequest first)
  /-- For a pending one the log waits. -/
  pending : ∀ node r, c.standbys.get? node = some r → r.status = .pending →
    c'.standbys.get? node = some { r with backlog := r.backlog ++ [log] } ∧
      c'.lastShips.get? node = c.lastShips.get? node
  absent : ∀ node, c.standbys.get? node = none → SameOf node c c'
  rest : SameRest c c'
  /-- Each ready standby is handed the first of its logs at least. -/
  attempted : ∀ node r, c.standbys.get? node = some r → r.status = .ready →
    after (c.addressOf node) = (handing answer before log c node r).2 ∧
      ∃ first rest, r.backlog ++ [log] = first :: rest ∧
        before (c.addressOf node) ++ [Peer.shipRequest first] <+: after (c.addressOf node)
  quiet : ∀ address, (∀ node ∈ c.readyStandbys, c.addressOf node ≠ address) → after address = before address

end

/-- Two ships that come to the same, but for the times at which standbys were heard of and the
    order in which failures are told. -/
structure Alike (asked : ε → String → List Request) (x y : Except Error Nat × Scene ε) : Prop where
  results : (∃ n, x.1 = .ok n ∧ y.1 = .ok n) ∨ ∃ failures failures' : List (String × Error), failures.Perm failures' ∧
    x.1 = .error (.shipFailed (failures.map failureText)) ∧ y.1 = .error (.shipFailed (failures'.map failureText))
  standbys : ∀ node, (x.2.coordinator.standbys.get? node).map (fun r => { r with lastSeen := 0 }) =
    (y.2.coordinator.standbys.get? node).map fun r => { r with lastSeen := 0 }
  lastShips : ∀ node, x.2.coordinator.lastShips.get? node = y.2.coordinator.lastShips.get? node
  rest : SameRest x.2.coordinator y.2.coordinator
  requests : asked x.2.outside = asked y.2.outside

variable {before after after' : String → List Request} {result result' : Except Error Nat}

theorem Reported.alike (reported : Reported answer before log c result)
    (reported' : Reported answer before log c result') :
    (∃ n, result = .ok n ∧ result' = .ok n) ∨ ∃ failures failures' : List (String × Error), failures.Perm failures' ∧
      result = .error (.shipFailed (failures.map failureText)) ∧
      result' = .error (.shipFailed (failures'.map failureText)) := by
  have agree := reported.success.trans reported'.success.symm
  rcases result with e | n
  · rcases result' with e' | n'
    · obtain ⟨failures, rfl, nodup, these⟩ := reported.failures e rfl
      obtain ⟨failures', rfl, nodup', those⟩ := reported'.failures e' rfl
      refine .inr ⟨failures, failures', ?_, rfl, rfl⟩
      rw [List.perm_ext_iff_of_nodup (nodup.of_map _) (nodup'.of_map _)]
      rintro ⟨node, e⟩
      rw [these, those]
    · obtain ⟨n, same⟩ := agree.mpr ⟨n', rfl⟩
      cases same
  · obtain ⟨n', rfl⟩ := agree.mp ⟨n, rfl⟩
    refine .inl ⟨n, rfl, ?_⟩
    rw [reported.count n rfl, reported'.count n' rfl]

/-- What is left does not depend on how it came about. -/
theorem FannedOut.alike {c'' : Coordinator} (sorted : c.standbys.Sorted) (left : FannedOut answer before log c c' after)
    (left' : FannedOut answer before log c c'' after') :
    (∀ node, (c'.standbys.get? node).map (fun r => { r with lastSeen := 0 }) =
      (c''.standbys.get? node).map fun r => { r with lastSeen := 0 }) ∧
    (∀ node, c'.lastShips.get? node = c''.lastShips.get? node) ∧ SameRest c' c'' ∧ after = after' := by
  have each : ∀ node, (c'.standbys.get? node).map (fun r => { r with lastSeen := 0 }) =
      (c''.standbys.get? node).map (fun r => { r with lastSeen := 0 }) ∧
      c'.lastShips.get? node = c''.lastShips.get? node := by
    intro node
    cases there : c.standbys.get? node with
    | none =>
      obtain ⟨same, shipped⟩ := left.absent node there
      obtain ⟨same', shipped'⟩ := left'.absent node there
      exact ⟨by rw [same, same'], by rw [shipped, shipped']⟩
    | some r =>
      cases status : r.status with
      | pending =>
        obtain ⟨same, shipped⟩ := left.pending node r there status
        obtain ⟨same', shipped'⟩ := left'.pending node r there status
        exact ⟨by rw [same, same'], by rw [shipped, shipped']⟩
      | ready =>
        cases outcome : (handing answer before log c node r).1 with
        | ok =>
          obtain ⟨⟨time, same⟩, shipped⟩ := left.delivered node r there status outcome
          obtain ⟨⟨time', same'⟩, shipped'⟩ := left'.delivered node r there status outcome
          exact ⟨by rw [same, same']; rfl, by rw [shipped, shipped']⟩
        | error e =>
          obtain ⟨same, shipped, -⟩ := left.failed node r e there status outcome
          obtain ⟨same', shipped', -⟩ := left'.failed node r e there status outcome
          exact ⟨by rw [same, same'], by rw [shipped, shipped']⟩
  refine ⟨fun node => (each node).1, fun node => (each node).2, ?_, funext fun address => ?_⟩
  · rw [SameRest, left.rest, left'.rest]
  · by_cases ready : ∃ node ∈ c.readyStandbys, c.addressOf node = address
    · obtain ⟨node, member, rfl⟩ := ready
      obtain ⟨r, there, status⟩ := Option.map_eq_some_iff.mp ((Coordinator.mem_readyStandbys sorted).mp member)
      rw [(left.attempted node r there status).1, (left'.attempted node r there status).1]
    · have none_here : ∀ node ∈ c.readyStandbys, c.addressOf node ≠ address :=
        fun node member same => ready ⟨node, member, same⟩
      rw [left.quiet address none_here, left'.quiet address none_here]

/-- There is one delivery for each ready standby. -/
theorem deliveries_nodes (log : Bytes) (c : Coordinator) : (c.deliveries log).map Delivery.node = c.readyStandbys := by
  rw [Coordinator.deliveries, Coordinator.readyStandbys, OrderedMap.keys, OrderedMap.filter]
  induction c.standbys.entries with
  | nil => rfl
  | cons entry rest ih =>
    obtain ⟨node, r⟩ := entry
    cases status : r.status with
    | pending => simpa [Coordinator.delivery?, status] using ih
    | ready => simpa [Coordinator.delivery?, status] using ih

theorem targets_perm {ds : List Delivery} (perm : ds.Perm (c.deliveries log)) :
    (ds.map Delivery.node).Perm c.readyStandbys := deliveries_nodes log c ▸ perm.map _

theorem failure?_eq_some {outcome : Delivery → Except Error Unit} {node : String} {e : Error} :
    failure? outcome d = some (node, e) ↔ d.node = node ∧ outcome d = .error e := by
  rw [failure?]
  rcases outcome d with e' | ⟨⟩ <;> simp

/-- Failures of deliveries to different nodes are of different nodes. -/
theorem nodup_failures {outcome : Delivery → Except Error Unit} {ds : List Delivery}
    (nodes : (ds.map Delivery.node).Nodup) : ((ds.filterMap (failure? outcome)).map Prod.fst).Nodup := by
  refine List.pairwise_map.mpr (List.Pairwise.filterMap _ ?_ (List.pairwise_map.mp nodes))
  rintro d d' other ⟨node, e⟩ failed ⟨node', e'⟩ failed'
  rw [← (failure?_eq_some.mp failed).1, ← (failure?_eq_some.mp failed').1]
  exact other

theorem Equipped.peer (equipped : Equipped c) {node : String} {r : Registration}
    (there : c.standbys.get? node = some r) : c.peers.get? node = some (c.addressOf node) := by
  obtain ⟨address, found⟩ := equipped.known node r there
  rw [Coordinator.addressOf, found]
  rfl

theorem Equipped.nodup (equipped : Equipped c) {ds : List Delivery} (perm : ds.Perm (c.deliveries log)) :
    (ds.map Delivery.node).Nodup :=
  (targets_perm perm).nodup_iff.mpr (Coordinator.nodup_readyStandbys equipped.sorted)

/-- A ready standby is sent the logs that wait for it and the one shipped. -/
theorem Equipped.targeted (equipped : Equipped c) {ds : List Delivery} (perm : ds.Perm (c.deliveries log))
    {node : String} {r : Registration} (there : c.standbys.get? node = some r) (ready : r.status = .ready) :
    ⟨node, r.generation, r.backlog ++ [log]⟩ ∈ ds := by
  rw [perm.mem_iff, Traffic.mem_deliveries equipped.sorted]
  exact ⟨r, there, by rw [Coordinator.delivery?, ready]⟩

/-- Who is not a ready standby is sent nothing. -/
theorem Equipped.untargeted (equipped : Equipped c) {ds : List Delivery} (perm : ds.Perm (c.deliveries log))
    {node : String} (idle : ∀ r, c.standbys.get? node = some r → r.status ≠ .ready) : node ∉ ds.map Delivery.node := by
  intro member
  have status := (Coordinator.mem_readyStandbys equipped.sorted).mp ((targets_perm perm).mem_iff.mp member)
  obtain ⟨r, there, ready⟩ := Option.map_eq_some_iff.mp status
  exact idle r there ready

theorem get?_collect_eq (c : Coordinator) (log : Bytes) (node : String) :
    (c.collect log).standbys.get? node = (c.standbys.get? node).map (Coordinator.queue log) := by
  rw [Coordinator.collect, OrderedMap.get?_mapValues]

/-- What comes of the logs for a ready standby is what their delivery comes to alone. -/
theorem alone_targeted (node : String) (r : Registration) :
    alone answer c.addressOf before ⟨node, r.generation, r.backlog ++ [log]⟩ = handing answer before log c node r := rfl

/-- The deliveries of a ship, in any arrangement, leave what each comes to. -/
theorem Equipped.fannedOut (equipped : Equipped c) {ds : List Delivery} (perm : ds.Perm (c.deliveries log))
    (made : Made answer c.addressOf before ds (c.collect log) c' before after) :
    FannedOut answer before log c c' after := by
  obtain ⟨handled, others, quiet, rest⟩ := made
  constructor
  case delivered =>
    intro node r there ready outcome
    have settled := (handled _ (equipped.targeted perm there ready)).1
    rw [alone_targeted, outcome] at settled
    obtain ⟨⟨time, found⟩, shipped⟩ := settled
    refine ⟨⟨time, found.trans ?_⟩, shipped⟩
    rw [get?_collect_eq, there, Option.map_some, Option.map_some, Coordinator.queue, ready]
  case failed =>
    intro node r e there ready outcome
    obtain ⟨settled, requests⟩ := handled _ (equipped.targeted perm there ready)
    rw [alone_targeted, outcome] at settled
    obtain ⟨done, first, rest, parts, acknowledged, asked⟩ := handAll_error outcome
    exact ⟨settled.1, settled.2, done, first, rest, parts, acknowledged, requests.trans asked⟩
  case pending =>
    intro node r there pending
    obtain ⟨same, shipped⟩ := others node (equipped.untargeted perm fun r' there' => by
      rw [there, Option.some.injEq] at there'
      rw [← there', pending]
      simp)
    refine ⟨same.trans ?_, shipped⟩
    rw [get?_collect_eq, there, Option.map_some, Coordinator.queue, pending]
  case absent =>
    intro node there
    obtain ⟨same, shipped⟩ := others node (equipped.untargeted perm fun r' there' => by
      rw [there] at there'
      cases there')
    refine ⟨same.trans ?_, shipped⟩
    rw [get?_collect_eq, there]
    rfl
  case rest =>
    rw [SameRest, rest]
    rfl
  case attempted =>
    intro node r there ready
    have requests := (handled _ (equipped.targeted perm there ready)).2
    refine ⟨requests, ?_⟩
    obtain ⟨first, rest, parts⟩ := List.exists_cons_of_ne_nil (show r.backlog ++ [log] ≠ [] by simp)
    refine ⟨first, rest, parts, ?_⟩
    rw [requests]
    simp only [parts]
    exact prefix_handAll_cons first rest _
  case quiet =>
    intro address idle
    refine quiet address fun member => ?_
    obtain ⟨d, target, same⟩ := List.mem_map.mp member
    exact idle d.node ((targets_perm perm).mem_iff.mp (List.mem_map_of_mem target)) same

/-- The deliveries of a ship, in any arrangement, are reported together. -/
theorem Equipped.reported (equipped : Equipped c) {ds : List Delivery} (perm : ds.Perm (c.deliveries log)) :
    Reported answer before log c
      (report ds.length (ds.filterMap (failure? fun d => (alone answer c.addressOf before d).1))) := by
  -- A failure is one of a ready standby on its own line.
  have failing : ∀ node e, (node, e) ∈ ds.filterMap (failure? fun d => (alone answer c.addressOf before d).1) ↔
      ∃ r, c.standbys.get? node = some r ∧ r.status = .ready ∧ (handing answer before log c node r).1 = .error e := by
    intro node e
    rw [List.mem_filterMap]
    constructor
    · rintro ⟨d, member, failed⟩
      obtain ⟨rfl, outcome⟩ := failure?_eq_some.mp failed
      obtain ⟨r, there, -, ready, logs⟩ := Traffic.of_mem_deliveries equipped.sorted (perm.mem_iff.mp member)
      refine ⟨r, there, ready, ?_⟩
      rw [handing, ← logs]
      exact outcome
    · rintro ⟨r, there, ready, outcome⟩
      exact ⟨_, equipped.targeted perm there ready, failure?_eq_some.mpr ⟨rfl, outcome⟩⟩
  have length : ds.length = c.readyStandbys.length := by
    rw [← (targets_perm perm).length_eq, List.length_map]
  cases failed : ds.filterMap (failure? fun d => (alone answer c.addressOf before d).1) with
  | nil =>
    rw [failed] at failing
    refine ⟨iff_of_true ⟨_, rfl⟩ fun node r there ready => ?_, fun n same => ?_, by rintro e ⟨⟩⟩
    · cases outcome : (handing answer before log c node r).1 with
      | ok => rfl
      | error e => exact absurd ((failing node e).mpr ⟨r, there, ready, outcome⟩) (List.not_mem_nil)
    · cases same
      exact length
  | cons failure rest =>
    rw [failed] at failing
    refine ⟨iff_of_false (by rintro ⟨n, same⟩; cases same) fun all => ?_, (by rintro n ⟨⟩), fun e same => ?_⟩
    · obtain ⟨r, there, ready, outcome⟩ := (failing failure.1 failure.2).mp List.mem_cons_self
      rw [all failure.1 r there ready] at outcome
      cases outcome
    · cases same
      exact ⟨failure :: rest, rfl, failed ▸ nodup_failures (equipped.nodup perm), failing⟩

theorem Lines.shipIn (lines : Lines s asked answer) (equipped : Equipped scene.coordinator)
    {arrange : List Delivery → List Delivery} (arranged : ∀ ds, (arrange ds).Perm ds) (log : Bytes) :
    ∃ result c' outside, (shipIn s arrange log).perform scene = (result, ⟨c', outside⟩) ∧
      Reported answer (asked scene.outside) log scene.coordinator result ∧
      FannedOut answer (asked scene.outside) log scene.coordinator c' (asked outside) := by
  have perm := arranged (scene.coordinator.deliveries log)
  have nodes := targets_perm perm
  have target : ∀ d ∈ arrange (scene.coordinator.deliveries log), ∃ r, scene.coordinator.standbys.get? d.node = some r ∧
      r.generation = d.generation := by
    intro d member
    obtain ⟨r, there, number, -⟩ := Traffic.of_mem_deliveries equipped.sorted (perm.mem_iff.mp member)
    exact ⟨r, there, number⟩
  have apart :
      ((arrange (scene.coordinator.deliveries log)).map fun d => scene.coordinator.addressOf d.node).Nodup := by
    have each := List.Nodup.map_on (f := scene.coordinator.addressOf) (fun node member node' member' =>
      equipped.apart node (nodes.mem_iff.mp member) node' (nodes.mem_iff.mp member')) (equipped.nodup perm)
    rwa [List.map_map] at each
  obtain ⟨c', outside, done, made⟩ := lines.deliverAll
    (arrange (scene.coordinator.deliveries log)) scene.coordinator.addressOf (asked scene.outside)
    ⟨scene.coordinator.collect log, scene.outside⟩
    (fun d member => by
      obtain ⟨r, there, -⟩ := target d member
      exact equipped.peer there)
    (fun d member => by
      obtain ⟨r, there, number⟩ := target d member
      refine ⟨Coordinator.queue log r, ?_, (Traffic.generation_queue log r).trans number⟩
      rw [get?_collect_eq, there]
      rfl)
    (fun _ _ => rfl) (equipped.nodup perm) apart
  refine ⟨_, c', outside, ?_, equipped.reported perm, equipped.fannedOut perm made⟩
  have primary : scene.coordinator.role.isPrimary = true := by
    rw [equipped.primary]
    rfl
  rw [Primary.shipIn, Action.perform_bind, Scene.perform_step]
  simp only [primary, ↓reduceIte]
  rw [Action.perform_bind, done]
  exact perform_report _ _ _

/-- A ship hands its logs to each ready standby, in whatever order it makes the deliveries. It reports
    success if each has acknowledged all of its own, and one failure for each other, which is
    given up; any two orders come to the same. -/
theorem Lines.ship_fans_out (lines : Lines s asked answer) (equipped : Equipped scene.coordinator) (log : Bytes) :
    Primary.shipIn s id log = ship s log ∧
    (∀ arrange : List Delivery → List Delivery, (∀ ds, (arrange ds).Perm ds) →
      ∃ result c' outside, (Primary.shipIn s arrange log).perform scene = (result, ⟨c', outside⟩) ∧
        Reported answer (asked scene.outside) log scene.coordinator result ∧
        FannedOut answer (asked scene.outside) log scene.coordinator c' (asked outside)) ∧
    ∀ arrange arrange' : List Delivery → List Delivery, (∀ ds, (arrange ds).Perm ds) → (∀ ds, (arrange' ds).Perm ds) →
      Alike asked ((Primary.shipIn s arrange log).perform scene) ((Primary.shipIn s arrange' log).perform scene) := by
  refine ⟨shipIn_id s log, fun arrange arranged => lines.shipIn equipped arranged log, ?_⟩
  intro arrange arrange' arranged arranged'
  obtain ⟨result, c', outside, done, reported, left⟩ := lines.shipIn equipped arranged log
  obtain ⟨result', c'', outside', done', reported', left'⟩ := lines.shipIn equipped arranged' log
  obtain ⟨standbys, lastShips, rest, requests⟩ := left.alike equipped.sorted left'
  rw [done, done']
  exact ⟨reported.alike reported', standbys, lastShips, rest, requests⟩

/-- Surroundings that do nothing but keep the account of the requests. -/
def keeping (answer : String → List Request → Except Error Reply) : Surroundings (String → List Request) where
  now := return 0
  position := return .start
  snapshot _ := return []
  install _ := return
  apply _ := return
  promote := return
  call _ address request := Action.ofStep fun scene =>
    (answer address (scene.outside address ++ [request]),
      ⟨scene.coordinator, update scene.outside address (scene.outside address ++ [request])⟩)

theorem lines_keeping (answer : String → List Request → Except Error Reply) :
    Lines (keeping answer) (fun outside => outside) answer where
  call _ _ _ := ⟨_, rfl, rfl⟩
  now scene := ⟨0, scene.outside, rfl, rfl⟩

/-- A primary with two ready standbys, two logs waiting for the first, and a pending one. -/
def threeStandbys : Coordinator where
  node := "p"
  peers := ⟨[("a", "a:1"), ("b", "b:1"), ("c", "c:1")]⟩
  livenessWindow := 10
  role := .primary
  standbys := ⟨[("a", ⟨.ready, [[1], [2]], 1, 0⟩), ("b", ⟨.ready, [], 2, 0⟩), ("c", ⟨.pending, [[2]], 3, 0⟩)]⟩
  lastShips := .empty
  links := .empty
  generations := 3
  flushes := []

/-- The first standby takes one log and is gone then. -/
def goneAfterOne (address : String) (asked : List Request) : Except Error Reply :=
  if address = "a:1" ∧ 1 < asked.length then .error (.network "gone") else .ok .ok

theorem Lines.ship_fans_out_past_loss :
    Lines (keeping goneAfterOne) (fun outside => outside) goneAfterOne ∧ Equipped threeStandbys ∧
    Primary.shipIn (keeping goneAfterOne) id [3] = ship (keeping goneAfterOne) [3] ∧
    (∀ arrange : List Delivery → List Delivery, (∀ ds, (arrange ds).Perm ds) →
      ∃ result c' outside, (Primary.shipIn (keeping goneAfterOne) arrange [3]).perform ⟨threeStandbys, fun _ => []⟩ =
          (result, ⟨c', outside⟩) ∧
        Reported goneAfterOne (fun _ => []) [3] threeStandbys result ∧
        FannedOut goneAfterOne (fun _ => []) [3] threeStandbys c' outside) ∧
    ∀ arrange arrange' : List Delivery → List Delivery, (∀ ds, (arrange ds).Perm ds) → (∀ ds, (arrange' ds).Perm ds) →
      Alike (fun outside => outside)
        ((Primary.shipIn (keeping goneAfterOne) arrange [3]).perform ⟨threeStandbys, fun _ => []⟩)
        ((Primary.shipIn (keeping goneAfterOne) arrange' [3]).perform ⟨threeStandbys, fun _ => []⟩) := by
  have first : "a" < "b" := by decide
  have second : "b" < "c" := by decide
  have sorted : ∀ {α : Type} (x y z : α), OrderedMap.Sorted ⟨[("a", x), ("b", y), ("c", z)]⟩ := fun x y z =>
    .cons (List.forall_mem_cons.mpr ⟨first, List.forall_mem_singleton.mpr (Strict.trans first second)⟩)
      (List.pairwise_pair.mpr second)
  have equipped : Equipped threeStandbys := by
    refine ⟨rfl, sorted _ _ _, fun node r there => ?_, by decide⟩
    have keys : threeStandbys.standbys.keys = threeStandbys.peers.keys := rfl
    rw [← (show threeStandbys.peers.Sorted from sorted _ _ _).mem_keys, ← keys,
      (show threeStandbys.standbys.Sorted from sorted _ _ _).mem_keys]
    exact ⟨r, there⟩
  refine ⟨lines_keeping goneAfterOne, equipped, ?_⟩
  exact Lines.ship_fans_out (lines_keeping goneAfterOne) equipped [3]

end Primary
end Shiplog
