import Shiplog.Proofs.Messages
import Shiplog.Proofs.Scenes
import Shiplog.Connection
import Shiplog.Line
import Shiplog.Replication.Handlers

/-!
How a primary disowns a standby. The error goes as text, and is told from every other error by
the words in front of the name (`Peer.readRole_eq_notRegistered`); so what the one that asks
reads is what the one that answers means, whatever the name (`Replication.disowns_iff`), also
when the reply goes over a connection (`Replication.reads_disowning`).
-/
namespace Shiplog

/-! ## Text -/

namespace Text

theorem toBytes_injective {a b : String} (same : toBytes a = toBytes b) : a = b := by
  have read := congrArg ofBytes? same
  rw [ofBytes?_toBytes, ofBytes?_toBytes] at read
  exact Option.some.inj read

theorem length_toBytes (text : String) : (toBytes text).length = text.utf8ByteSize := by
  rw [toBytes_eq, Array.length_toList, ByteArray.size_data, String.size_toByteArray]

theorem length_toBytes_append (a b : String) :
    (toBytes (a ++ b)).length = (toBytes a).length + (toBytes b).length := by
  rw [length_toBytes, length_toBytes, length_toBytes, String.utf8ByteSize_append]

end Text

/-! ## What a reply tells -/

theorem Role.ofCode_eq_ok {code : Int64} {role : Role} : ofCode code = .ok role ↔ code = role.code := by
  constructor
  · intro read
    rw [ofCode] at read
    split at read
    · cases read
      assumption
    · split at read
      · cases read
        assumption
      · cases read
  · rintro rfl
    exact ofCode_code role

namespace Peer

theorem disowned?_eq_some {text node : String} : disowned? text = some node ↔ text = disowning ++ node := by
  rw [disowned?]
  constructor
  · intro found
    split at found
    · rename_i front
      obtain ⟨rest, whole⟩ := List.isPrefixOf_iff_prefix.1 front
      rw [← whole, ← String.length_toList, List.drop_left] at found
      obtain rfl := Option.some.inj found
      rw [← String.toList_inj, String.toList_append, String.toList_ofList, whole]
    · cases found
  · rintro rfl
    have front : disowning.toList.isPrefixOf (disowning ++ node).toList = true := by
      rw [List.isPrefixOf_iff_prefix, String.toList_append]
      exact List.prefix_append _ _
    rw [if_pos front, String.toList_append, ← String.length_toList, List.drop_left, String.ofList_toList]

/-- A role is read from its number only. -/
theorem readRole_eq_ok {reply : Reply} {role : Role} : readRole reply = .ok role ↔ reply = .integer role.code := by
  cases reply with
  | integer code => simp only [readRole, Role.ofCode_eq_ok, Reply.integer.injEq]
  | error text =>
    simp only [readRole, reduceCtorEq, iff_false]
    split <;> simp
  | status text | null | bulk data => simp [readRole]

theorem readSync_eq_ok {reply : Reply} {payload : Bytes} : readSync reply = .ok payload ↔ reply = .bulk payload := by
  cases reply <;> simp [readSync]

/-- The one reply that disowns a node names it behind the words that disown. -/
theorem readRole_eq_notRegistered {reply : Reply} {node : String} :
    readRole reply = .error (.notRegistered node) ↔ reply = .error (disowning ++ node) := by
  cases reply with
  | error text =>
    rw [readRole, Reply.error.injEq, ← disowned?_eq_some]
    cases disowned? text with
    | some name => simp
    | none => simp [unexpected]
  | integer code =>
    simp only [readRole, Role.ofCode, reduceCtorEq, iff_false]
    split
    · simp
    · split <;> simp
  | status text | null | bulk data => simp [readRole, unexpected]

theorem roleRequest_ne_syncRequest (node node' : String) (ready : Bool) (after : Position) :
    roleRequest node ready ≠ syncRequest node' after := by
  intro same
  have names := congrArg (fun r : Request => r.args.head?) same
  have commands : roleCommand = syncCommand := Text.toBytes_injective (Option.some.inj names)
  exact absurd commands (by decide)

end Peer

/-! ## What a call fails with -/

/-- No error that disowns a node. -/
def Error.Plain (e : Error) : Prop := ∀ node, e ≠ .notRegistered node

theorem Wire.Flaw.plain_toError (flaw : Wire.Flaw) : flaw.toError.Plain := by
  intro node
  simp [Wire.Flaw.toError]

namespace Action

variable {σ α β : Type}

/-- An action that disowns nobody by failing. -/
def Raises (act : Action σ α) : Prop := ∀ s e s', act.perform s = (.error e, s') → e.Plain

theorem Raises.ofExcept {outcome : Except Error α} (plain : ∀ e, outcome = .error e → e.Plain) :
    Raises (Action.ofExcept outcome : Action σ α) := by
  intro s e s' failed
  exact plain e (congrArg Prod.fst failed)

theorem raises_pure (a : α) : Raises (pure a : Action σ α) := by
  intro s e s' failed
  cases failed

theorem Raises.bind {act : Action σ α} {next : α → Action σ β} (first : Raises act) (later : ∀ a, Raises (next a)) :
    Raises (act >>= next) := by
  intro s e s' failed
  rw [perform_bind] at failed
  rcases done : act.perform s with ⟨e' | a, s₁⟩
  · rw [done] at failed
    cases failed
    exact first s _ _ done
  · rw [done] at failed
    exact later a s₁ e s' failed

theorem raises_checked (outcome : Except Wire.Flaw α) :
    Raises (Action.ofExcept (outcome.mapError Wire.Flaw.toError) : Action σ α) := by
  refine .ofExcept fun e failed => ?_
  cases outcome with
  | error flaw =>
    cases failed
    exact flaw.plain_toError
  | ok => cases failed

end Action

namespace Line

open Shiplog.Action (Raises)

variable {σ : Type} {transport : Transport σ}

theorem raises_receive {take : Nat → Action σ Bytes} (takes : ∀ n, Raises (take n)) : Raises (Reply.receive take) := by
  have frame : Raises (Frame.receive take) :=
    (takes _).bind fun header => (Action.raises_checked _).bind fun _ => (takes _).bind fun payload =>
      Action.raises_pure _
  exact frame.bind fun f => Action.raises_checked _

theorem raises_dial (address : String) : Raises (dial transport address) := by
  intro s e s' failed node
  rw [dial] at failed
  split at failed
  · cases failed
    simp
  · rw [Action.perform_ofStep] at failed
    split at failed
    · cases failed
    · cases failed
      simp

/-- A call fails with an error of the network, of the stream or of the format. -/
theorem raises_call (sends : ∀ connection bytes, Raises (transport.send connection bytes))
    (takes : ∀ connection n, Raises (transport.take connection n)) (request : Request) :
    Raises (call transport request) := by
  rintro ⟨line, s⟩ e s' failed
  rw [call, Action.perform_ofStep] at failed
  rcases reached : (reach transport line).perform s with ⟨e' | connection, s₁⟩
  · simp only [reached] at failed
    obtain rfl := Except.error.inj (congrArg Prod.fst failed)
    have plain : Raises (reach transport line) := by
      rw [reach]
      split
      · exact Action.raises_pure _
      · exact raises_dial _
    exact plain s _ _ reached
  · rcases exchanged : (exchange transport connection request).perform s₁ with ⟨e' | reply, s₂⟩
    · simp only [reached, exchanged] at failed
      obtain rfl := Except.error.inj (congrArg Prod.fst failed)
      have plain : Raises (exchange transport connection request) :=
        (Action.raises_checked _).bind fun bytes => (sends _ _).bind fun _ => raises_receive (takes connection)
      exact plain s₁ _ _ exchanged
    · simp only [reached, exchanged] at failed
      cases failed

/-- What asks a peer is disowned by one reply of the peer only, and never by a failed call. -/
theorem askRole_disowned_iff (sends : ∀ connection bytes, Raises (transport.send connection bytes))
    (takes : ∀ connection n, Raises (transport.take connection n)) {line line' : Line × σ} {asker node : String}
    {ready : Bool} :
    (Peer.askRole (call transport) asker ready).perform line = (.error (.notRegistered node), line') ↔
      (call transport (Peer.roleRequest asker ready)).perform line = (.ok (.error (Peer.disowning ++ node)), line') := by
  rw [Peer.askRole, Action.perform_bind]
  rcases called : (call transport (Peer.roleRequest asker ready)).perform line with ⟨e | reply, line₁⟩
  · have plain := raises_call sends takes _ _ _ _ called node
    simp [plain]
  · simp only [Action.perform_ofExcept, Prod.mk.injEq, Peer.readRole_eq_notRegistered, Except.ok.injEq]

end Line

/-! ## What is answered -/

namespace Replication

variable {ε : Type} {s : Surroundings ε} {scene scene' : Scene ε} {time : Nat} {args : List Bytes}

/-- A node that gives its name is disowned just when it claims a registration that a primary
    does not hold. -/
theorem greets_named (clock : s.now.perform scene = (.ok time, scene')) {arg : Bytes} {node : String}
    (named : args[1]? = some arg) (text : Text.ofBytes? arg = some node) :
    ((greet s args).perform scene).1 =
      if claimsReady args && !scene'.coordinator.standbys.contains node && scene'.coordinator.role.isPrimary then
        .error (.notRegistered node)
      else .ok () := by
  have name : nodeName arg = .ok node := by rw [nodeName, text]
  have touched : (Primary.touch s node).perform scene = (.ok (scene'.coordinator.standbys.contains node),
      { scene' with coordinator := scene'.coordinator.touch time node }) := by
    rw [Primary.touch, Action.perform_bind_ok clock, Scene.perform_step]
  have role : (scene'.coordinator.touch time node).role = scene'.coordinator.role := rfl
  simp only [greet, named, name, Action.perform_bind, Action.perform_ofExcept, touched, Scene.perform_current, role]
  split
  · rfl
  · rfl

/-- A name that is no text is refused. -/
theorem greets_unnamed {arg : Bytes} (named : args[1]? = some arg) (text : Text.ofBytes? arg = none) :
    ((greet s args).perform scene).1 = .error (.protocol "node name is not valid UTF-8") := by
  have name : nodeName arg = .error (.protocol "node name is not valid UTF-8") := by rw [nodeName, text]
  simp only [greet, named, name, Action.perform_bind, Action.perform_ofExcept]

theorem greets_nobody (absent : args[1]? = none) : ((greet s args).perform scene).1 = .ok () := by
  simp only [greet, absent, Action.perform_pure]

/-- Only a greeting is answered with an error. -/
theorem replyTo_tellRole {text : String} :
    Commands.replyTo ((tellRole s args).perform scene).1 = .error text ↔
      ∃ e, ((greet s args).perform scene).1 = .error e ∧ e.message = text := by
  rw [tellRole, Action.perform_bind]
  rcases (greet s args).perform scene with ⟨e | _, scene'⟩
  · simp [Commands.replyTo]
  · simp [Commands.replyTo, Scene.perform_current, Except.map]

theorem disowning_append_inj {node node' : String} :
    Peer.disowning ++ node = Peer.disowning ++ node' ↔ node = node' := by
  rw [← String.toList_inj, String.toList_append, String.toList_append, List.append_cancel_left_eq, String.toList_inj]

theorem protocol_ne_disowning (detail node : String) :
    ((Error.protocol detail).message = Peer.disowning ++ node) = False := by
  refine eq_false fun same => ?_
  have fronts : ("Protocol error: " ++ detail).toList.head? = (Peer.disowning ++ node).toList.head? :=
    congrArg (fun text : String => text.toList.head?) same
  have mine : "Protocol error: ".toList.head? = some 'P' := by decide
  have other : Peer.disowning.toList.head? = some 'n' := by decide
  rw [String.toList_append, String.toList_append, List.head?_append, List.head?_append, mine, other, Option.some_or,
    Option.some_or] at fronts
  exact absurd fronts (by decide)

/-- What asks reads that it is disowned just when it claims a registration that a primary does
    not hold, and then under the name it gave. -/
theorem disowns_iff (clock : s.now.perform scene = (.ok time, scene')) (node : String) :
    Peer.readRole (Commands.replyTo ((tellRole s args).perform scene).1) = .error (.notRegistered node) ↔
      (∃ arg, args[1]? = some arg ∧ Text.ofBytes? arg = some node) ∧ claimsReady args = true ∧
        scene'.coordinator.standbys.contains node = false ∧ scene'.coordinator.role.isPrimary = true := by
  rw [Peer.readRole_eq_notRegistered, replyTo_tellRole]
  cases named : args[1]? with
  | none => simp [greets_nobody named]
  | some arg =>
    cases text : Text.ofBytes? arg with
    | none =>
      simp only [greets_unnamed named text, Except.error.injEq, exists_eq_left', protocol_ne_disowning,
        Option.some.injEq, text, reduceCtorEq, false_and]
    | some name =>
      have message : (Error.notRegistered name).message = Peer.disowning ++ name := rfl
      rw [greets_named clock named text]
      split
      · rename_i disowned
        simp only [Bool.and_eq_true, Bool.not_eq_eq_eq_not, Bool.not_true] at disowned
        obtain ⟨⟨claims, absent⟩, primary⟩ := disowned
        simp only [Except.error.injEq, exists_eq_left', message, disowning_append_inj, Option.some.injEq, text]
        constructor
        · rintro rfl
          exact ⟨rfl, claims, absent, primary⟩
        · exact fun same => same.1
      · rename_i owned
        simp only [reduceCtorEq, false_and, exists_false, Option.some.injEq, exists_eq_left', text, false_iff]
        rintro ⟨rfl, claims, absent, primary⟩
        exact owned (by simp [claims, absent, primary])

/-- A node that asks under its name is disowned under this name. -/
theorem disowns_asker_iff (clock : s.now.perform scene = (.ok time, scene')) (asker node : String) (ready : Bool) :
    Peer.readRole (Commands.replyTo ((tellRole s (Peer.roleRequest asker ready).args).perform scene).1) =
        .error (.notRegistered node) ↔
      node = asker ∧ ready = true ∧ scene'.coordinator.standbys.contains asker = false ∧
        scene'.coordinator.role.isPrimary = true := by
  have named : (Peer.roleRequest asker ready).args[1]? = some (Text.toBytes asker) := rfl
  have claims : claimsReady (Peer.roleRequest asker ready).args = ready := by
    cases ready with
    | false => rfl
    | true => exact beq_self_eq_true (some Peer.readyFlag)
  rw [disowns_iff clock, named, claims]
  simp only [Option.some.injEq, exists_eq_left', Text.ofBytes?_toBytes]
  constructor
  · rintro ⟨rfl, rest⟩
    exact ⟨rfl, rest⟩
  · rintro ⟨rfl, rest⟩
    exact ⟨rfl, rest⟩

/-- The error that disowns a node that could ask can be sent, and is read as it was sent. -/
theorem reads_disowning {node : String} (asked : (Peer.roleRequest node true).frame.Fits) (rest : Bytes) :
    Connection.sendable (.error (Error.notRegistered node).message) = .error (Error.notRegistered node).message ∧
      (Reply.receive Wire.take).perform ((Reply.error (Error.notRegistered node).message).encode ++ rest) =
        (.ok (.error (Error.notRegistered node).message), rest) := by
  have fits : (Reply.error (Error.notRegistered node).message).frame.Fits := by
    have words : (Text.toBytes Peer.disowning).length = 16 := by rw [Text.length_toBytes]; rfl
    have whole : (Peer.roleRequest node true).frame.payload.length ≤ Frame.maxPayload := asked
    simp only [Peer.roleRequest, Request.command, Request.frame, Request.encodeNat, Request.encodeArg, ↓reduceIte,
      List.flatMap_cons, List.flatMap_nil, List.length_append, Bytes.length_ofNatBE] at whole
    change (Text.toBytes (Peer.disowning ++ node)).length ≤ Frame.maxPayload
    rw [Text.length_toBytes_append, words]
    omega
  have small : ¬ Frame.maxPayload < (Reply.error (Error.notRegistered node).message).payload.length := Nat.not_lt.2 fits
  exact ⟨by rw [Connection.sendable, Frame.checkLength, if_neg small], Reply.perform_receive_encode fits rest⟩

end Replication

/-! ## Both sides -/

/-- How a standby learns that a primary does not hold its registration. -/
structure Disowned : Prop where
  /-- Whatever the arguments, what is answered is read as disowning a node just when a primary
      finds that the node claims a registration that it does not hold. -/
  answers : ∀ {ε : Type} (s : Surroundings ε) (scene scene' : Scene ε) (time : Nat),
    s.now.perform scene = (.ok time, scene') → ∀ args node,
      (Peer.readRole (Commands.replyTo ((Replication.tellRole s args).perform scene).1) = .error (.notRegistered node) ↔
        (∃ arg, args[1]? = some arg ∧ Text.ofBytes? arg = some node) ∧ Replication.claimsReady args = true ∧
          scene'.coordinator.standbys.contains node = false ∧ scene'.coordinator.role.isPrimary = true)
  /-- What asks is disowned under the name it gave. -/
  names : ∀ {ε : Type} (s : Surroundings ε) (scene scene' : Scene ε) (time : Nat),
    s.now.perform scene = (.ok time, scene') → ∀ asker node ready,
      (Peer.readRole (Commands.replyTo ((Replication.tellRole s (Peer.roleRequest asker ready).args).perform scene).1) =
          .error (.notRegistered node) ↔
        node = asker ∧ ready = true ∧ scene'.coordinator.standbys.contains asker = false ∧
          scene'.coordinator.role.isPrimary = true)
  /-- The reply goes over a connection as it is. -/
  travels : ∀ node, (Peer.roleRequest node true).frame.Fits → ∀ rest,
    Connection.sendable (.error (Error.notRegistered node).message) = .error (Error.notRegistered node).message ∧
      (Reply.receive Wire.take).perform ((Reply.error (Error.notRegistered node).message).encode ++ rest) =
        (.ok (.error (Error.notRegistered node).message), rest)
  /-- No call that fails disowns anyone. -/
  calls : ∀ {σ : Type} (transport : Transport σ),
    (∀ connection bytes, Action.Raises (transport.send connection bytes)) →
    (∀ connection n, Action.Raises (transport.take connection n)) → ∀ line line' asker node ready,
      ((Peer.askRole (Line.call transport) asker ready).perform line = (.error (.notRegistered node), line') ↔
        (Line.call transport (Peer.roleRequest asker ready)).perform line =
          (.ok (.error (Peer.disowning ++ node)), line'))

theorem disowned : Disowned where
  answers _ _ _ _ clock _ node := Replication.disowns_iff clock node
  names _ _ _ _ clock asker node ready := Replication.disowns_asker_iff clock asker node ready
  travels _ asked rest := Replication.reads_disowning asked rest
  calls _ sends takes _ _ _ _ _ := Line.askRole_disowned_iff sends takes

end Shiplog
