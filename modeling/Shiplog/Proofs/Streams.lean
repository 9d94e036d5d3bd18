import Shiplog.Line
import Shiplog.Proofs.Connections
import Shiplog.Proofs.Replies
import Shiplog.Proofs.Requests

/-!
Messages on one stream. What is sent is put on the stream as one frame, or refused with nothing
put, by the length of the payload that its parts add up to (`Framed.perform_send`). Of what is
sent one message after another, a reader that meets the end of the stream anywhere has read the
messages whose frames lie before it, in their order, and then finds the end
(`Framed.receiveAll_prefix`). Requests and replies are both read so (`Wire.streams_in_frames`).
-/
namespace Shiplog

open Wire

namespace Wire

/-- Puts bytes at the end of a stream. -/
def put (bytes : Bytes) : Action Bytes Unit :=
  Action.ofStep fun stream => (.ok (), stream ++ bytes)

@[simp] theorem perform_put (bytes stream : Bytes) : (put bytes).perform stream = (.ok (), stream ++ bytes) := rfl

end Wire

section
variable {σ α : Type}

/-- Sends a frame by an action that puts bytes on a stream. A frame too long to be read is not sent. -/
def Frame.send (put : Bytes → Action σ Unit) (f : Frame) : Action σ Unit := do
  let bytes ← Action.ofExcept (check f.write)
  put bytes

/-- Sends frames one after another, whatever comes of each. -/
def Frame.sendAll (put : Bytes → Action σ Unit) (frames : List Frame) : Action σ (List (Except Error Unit)) :=
  frames.mapM fun f => (f.send put).outcome

/-- A call sends the frame of its request and then reads a reply. -/
theorem Line.exchange_eq (transport : Transport σ) (connection : Nat) (request : Request) :
    exchange transport connection request =
      (request.frame.send (transport.send connection) >>= fun _ => Reply.receive (transport.take connection)) := by
  rw [exchange, Frame.send, bind_assoc]

/-- The length of the payload of a request: its count, and each argument with its length. -/
def Request.measure (r : Request) : Nat :=
  4 + (r.args.map fun arg => 4 + arg.length).sum

/-- The length of the payload of a reply. -/
def Reply.measure : Reply → Nat
  | .status text | .error text => text.utf8ByteSize
  | .null => 0
  | .integer _ => 8
  | .bulk data => data.length

theorem Request.length_payload (r : Request) : r.frame.payload.length = r.measure := by
  have arguments (args : List Bytes) : (args.flatMap encodeArg).length = (args.map fun arg => 4 + arg.length).sum := by
    simp [List.length_flatMap, encodeArg, encodeNat]
  simp [frame, measure, arguments, encodeNat]

theorem Reply.length_payload (r : Reply) : r.frame.payload.length = r.measure := by
  cases r <;> simp [frame, payload, measure, Text.toBytes_eq]

/-! ## One message -/

/-- Messages of a kind that travel in frames: how long a payload is, which messages there are,
    and what a reader makes of a stream by its front. -/
structure Framed (frame : α → Frame) (measure : α → Nat) (Named : α → Prop) (receive : Action Bytes α) : Prop where
  measured : ∀ a, (frame a).payload.length = measure a
  reads : ∀ {a}, Named a → (frame a).Fits → ∀ rest, receive.perform ((frame a).encode ++ rest) = (.ok a, rest)
  stops : ∀ {stream}, Frame.Cut stream → receive.perform stream = (.error (.io .unexpectedEof), [])
  refuses : ∀ {stream}, Frame.Oversized stream →
    receive.perform stream = (.error (Flaw.tooLarge (Frame.announced stream)).toError, stream.drop Frame.headerSize)

theorem Request.framed : Framed Request.frame Request.measure (fun r => r.args ≠ []) (Request.receive Wire.take) where
  measured := Request.length_payload
  reads named fits := Request.perform_receive_encode ⟨named, fits⟩
  stops cut := Action.perform_bind_error (Frame.perform_receive_of_cut cut)
  refuses large := Action.perform_bind_error (Frame.perform_receive_of_oversized large)

theorem Reply.framed : Framed Reply.frame Reply.measure (fun _ => True) (Reply.receive Wire.take) where
  measured := Reply.length_payload
  reads _ fits := Reply.perform_receive_encode fits
  stops cut := Action.perform_bind_error (Frame.perform_receive_of_cut cut)
  refuses large := Action.perform_bind_error (Frame.perform_receive_of_oversized large)

variable {frame : α → Frame} {measure : α → Nat} {Named : α → Prop} {receive : Action Bytes α} {as : List α}

/-- What comes of sending a message: nothing is sent of one whose payload is too long. -/
def Wire.sent (measure : α → Nat) (a : α) : Except Error Unit :=
  if measure a ≤ Frame.maxPayload then .ok () else .error (.protocol (Flaw.tooLarge (measure a)).text)

/-- The messages that are sent. -/
def Wire.accepted (measure : α → Nat) (as : List α) : List α :=
  as.filter fun a => measure a ≤ Frame.maxPayload

/-- The frames of some messages, one after another. -/
def Wire.joined (frame : α → Frame) (as : List α) : Bytes :=
  as.flatMap fun a => (frame a).encode

theorem Framed.fits_iff (framed : Framed frame measure Named receive) (a : α) :
    (frame a).Fits ↔ measure a ≤ Frame.maxPayload := by
  rw [Frame.Fits, framed.measured]

/-- One frame is put on the stream, or nothing. -/
theorem Framed.perform_send (framed : Framed frame measure Named receive) (a : α) (stream : Bytes) :
    ((frame a).send put).perform stream =
      (sent measure a, stream ++ if measure a ≤ Frame.maxPayload then (frame a).encode else []) := by
  by_cases fits : measure a ≤ Frame.maxPayload
  · rw [Frame.send, Frame.check_write ((framed.fits_iff a).mpr fits), sent, if_pos fits, if_pos fits]
    rfl
  · have large : Frame.maxPayload < (frame a).payload.length := by
      rw [framed.measured]
      exact Nat.lt_of_not_le fits
    rw [Frame.send, Frame.check_write_error large, framed.measured, sent, if_neg fits, if_neg fits, List.append_nil]
    rfl

/-- A server sends a reply under the same limit as every writer, or else what it fails with. -/
theorem Connection.sendable_eq (reply : Reply) :
    sendable reply = match sent Reply.measure reply with
      | .ok () => reply
      | .error e => .error e.message := by
  have measured : reply.payload.length = reply.measure := Reply.length_payload reply
  by_cases fits : reply.measure ≤ Frame.maxPayload
  · rw [sendable, Frame.checkLength, sent, measured, if_pos fits, if_neg (Nat.not_lt.mpr fits)]
  · rw [sendable, Frame.checkLength, sent, measured, if_neg fits, if_pos (Nat.lt_of_not_le fits)]
    rfl

/-! ## Messages one after another -/

theorem Framed.perform_sendAll (framed : Framed frame measure Named receive) (as : List α) (stream : Bytes) :
    (Frame.sendAll put (as.map frame)).perform stream =
      (.ok (as.map (sent measure)), stream ++ joined frame (accepted measure as)) := by
  induction as generalizing stream with
  | nil => simp [Frame.sendAll, accepted, joined]
  | cons a as ih =>
    have first : ((frame a).send put).outcome.perform stream =
        (.ok (sent measure a), stream ++ if measure a ≤ Frame.maxPayload then (frame a).encode else []) := by
      rw [Action.perform_outcome, framed.perform_send]
    have later := ih (stream ++ if measure a ≤ Frame.maxPayload then (frame a).encode else [])
    rw [Frame.sendAll] at later
    rw [Frame.sendAll, List.map_cons, List.mapM_cons, Action.perform_bind_ok first, Action.perform_bind_ok later]
    by_cases fits : measure a ≤ Frame.maxPayload <;> simp [accepted, joined, fits]

theorem Wire.receiveAll_error {stream rest : Bytes} {e : Error} (stopped : receive.perform stream = (.error e, rest)) :
    receiveAll receive stream = ([], some e, rest) := by
  rw [receiveAll, stopped]

theorem Wire.receiveAll_ok {stream rest : Bytes} {a : α} (read : receive.perform stream = (.ok a, rest))
    (shorter : rest.length < stream.length) :
    receiveAll receive stream = (a :: (receiveAll receive rest).1, (receiveAll receive rest).2) := by
  rw [receiveAll, read]
  exact dif_pos shorter

/-- A stream that is cut off anywhere gives the messages whose frames lie inside it, and then ends. -/
theorem Framed.receiveAll_prefix (framed : Framed frame measure Named receive) {as : List α}
    (sound : ∀ a ∈ as, Named a ∧ (frame a).Fits) {cut : Bytes} (part : cut <+: joined frame as) :
    ∃ k ≤ as.length, (∀ j < as.length, j < k ↔ (joined frame (as.take (j + 1))).length ≤ cut.length) ∧
      receiveAll receive cut = (as.take k, some (.io .unexpectedEof), []) := by
  induction as generalizing cut with
  | nil =>
    obtain rfl : cut = [] := List.prefix_nil.mp part
    exact ⟨0, Nat.le_refl 0, by simp, receiveAll_error (framed.stops (.inl (by decide)))⟩
  | cons a as ih =>
    rw [List.forall_mem_cons] at sound
    obtain ⟨⟨named, fits⟩, sound⟩ := sound
    have whole : joined frame (a :: as) = (frame a).encode ++ joined frame as := List.flatMap_cons
    have length (j : Nat) : (joined frame ((a :: as).take (j + 1))).length =
        (frame a).encode.length + (joined frame (as.take j)).length := by
      rw [List.take_succ_cons, joined, List.flatMap_cons, List.length_append, joined]
    rw [whole] at part
    by_cases inside : (frame a).encode.length ≤ cut.length
    · obtain ⟨behind, rfl⟩ := List.prefix_of_prefix_length_le (List.prefix_append _ _) part inside
      obtain ⟨k, few, exact, read⟩ := ih sound ((List.prefix_append_right_inj _).mp part)
      have shorter : behind.length < ((frame a).encode ++ behind).length := by
        rw [List.length_append, Frame.length_encode, Frame.headerSize]
        omega
      refine ⟨k + 1, Nat.succ_le_succ few, fun j less => ?_, ?_⟩
      · rw [length, List.length_append, Nat.add_le_add_iff_left]
        cases j with
        | zero => simp [joined]
        | succ j => rw [Nat.add_lt_add_iff_right, exact j (Nat.lt_of_succ_lt_succ less)]
      · rw [receiveAll_ok (framed.reads named fits behind) shorter, read, List.take_succ_cons]
    · have inner : cut <+: (frame a).encode :=
        List.prefix_of_prefix_length_le part (List.prefix_append _ _) (Nat.le_of_not_le inside)
      have broken : Frame.Cut cut := Frame.cut_of_prefix fits inner (Nat.lt_of_not_le inside)
      refine ⟨0, Nat.zero_le _, fun j _ => ?_, receiveAll_error (framed.stops broken)⟩
      rw [length]
      omega

/-- A stream that is not cut off gives all of its messages. -/
theorem Framed.receiveAll_joined (framed : Framed frame measure Named receive) (sound : ∀ a ∈ as, Named a ∧ (frame a).Fits) :
    receiveAll receive (joined frame as) = (as, some (.io .unexpectedEof), []) := by
  obtain ⟨k, few, exact, read⟩ := framed.receiveAll_prefix sound (List.prefix_refl _)
  have all : k = as.length := by
    refine Nat.le_antisymm few (Nat.le_of_not_lt fun fewer => ?_)
    have parts : joined frame as = joined frame (as.take (k + 1)) ++ joined frame (as.drop (k + 1)) := by
      rw [joined, joined, joined, ← List.flatMap_append, List.take_append_drop]
    refine Nat.lt_irrefl k ((exact k fewer).mpr ?_)
    rw [parts, List.length_append]
    exact Nat.le_add_right _ _
  rw [read, all, List.take_length]

/-- What comes of messages of a kind that are sent one after another on one stream. -/
structure Streamed (frame : α → Frame) (measure : α → Nat) (receive : Action Bytes α) (as : List α) : Prop where
  /-- Each call puts one frame at the end of the stream, or puts nothing and fails: just when the
      payload is longer than a frame's may be. -/
  sends : ∀ a ∈ as, ∀ stream, ((frame a).send put).perform stream =
    if measure a ≤ Frame.maxPayload then (.ok (), stream ++ (frame a).encode)
    else (.error (.protocol (Flaw.tooLarge (measure a)).text), stream)
  /-- So the stream holds the frames of the messages that are sent. -/
  holds : (Frame.sendAll put (as.map frame)).perform [] = (.ok (as.map (sent measure)), joined frame (accepted measure as))
  /-- Header, payload and frame have the lengths that the writer reckoned with. -/
  lengths : ∀ a ∈ accepted measure as, ∀ rest, Frame.announced ((frame a).encode ++ rest) = measure a ∧
    (frame a).payload.length = measure a ∧ (frame a).encode.length = Frame.headerSize + measure a
  /-- A reader refuses the headers that announce what no writer sends. -/
  refuses : ∀ stream, Frame.headerSize ≤ stream.length → Frame.maxPayload < Frame.announced stream →
    receive.perform stream =
      (.error (.protocol (Flaw.tooLarge (Frame.announced stream)).text), stream.drop Frame.headerSize)
  /-- All messages that were sent are read, in their order, and then the end of the stream. -/
  whole : receiveAll receive (joined frame (accepted measure as)) = (accepted measure as, some (.io .unexpectedEof), [])
  /-- Of a stream that is cut off, the messages are read whose frames lie wholly inside it. -/
  cut : ∀ cut, cut <+: joined frame (accepted measure as) → ∃ k ≤ (accepted measure as).length,
    (∀ j < (accepted measure as).length, j < k ↔ (joined frame ((accepted measure as).take (j + 1))).length ≤ cut.length) ∧
    receiveAll receive cut = ((accepted measure as).take k, some (.io .unexpectedEof), [])

theorem Framed.streamed (framed : Framed frame measure Named receive) (named : ∀ a ∈ as, Named a) :
    Streamed frame measure receive as := by
  have sound : ∀ a ∈ accepted measure as, Named a ∧ (frame a).Fits := by
    intro a member
    obtain ⟨listed, fits⟩ := List.mem_filter.mp member
    exact ⟨named a listed, (framed.fits_iff a).mpr (of_decide_eq_true fits)⟩
  refine ⟨fun a _ stream => ?_, framed.perform_sendAll as [], fun a member rest => ?_, fun stream header large => ?_,
    framed.receiveAll_joined sound, fun cut part => framed.receiveAll_prefix sound part⟩
  · rw [framed.perform_send, sent]
    by_cases fits : measure a ≤ Frame.maxPayload <;> simp [fits]
  · have fits := (sound a member).2
    refine ⟨?_, framed.measured a, ?_⟩
    · rw [Frame.announced_encode fits.lt, framed.measured]
    · rw [Frame.length_encode, framed.measured]
  · exact framed.refuses ⟨header, large⟩

end

/-- Requests that name a command, and replies, travel on a stream each in its own frame: what is
    sent is read, up to where the stream breaks off. A reader refuses just the headers that no
    writer sends, and the lengths inside a request that is sent lose nothing in the words that
    they are written in. A call sends its request so before it reads the reply, and a server tells
    a client of a reply that it cannot send. -/
theorem Wire.streams_in_frames :
    (∀ requests : List Request, (∀ r ∈ requests, r.args ≠ []) →
      Streamed Request.frame Request.measure (Request.receive Wire.take) requests) ∧
    (∀ replies : List Reply, Streamed Reply.frame Reply.measure (Reply.receive Wire.take) replies) ∧
    (∀ stream, Frame.headerSize ≤ stream.length →
      ((∃ detail rest, (Frame.receive Wire.take).perform stream = (.error (.protocol detail), rest)) ↔
        Frame.maxPayload < Frame.announced stream)) ∧
    (∀ r : Request, r.measure ≤ Frame.maxPayload → Bytes.toNatBE (Request.encodeNat r.args.length) = r.args.length ∧
      ∀ arg ∈ r.args, Bytes.toNatBE (Request.encodeNat arg.length) = arg.length) ∧
    (∀ (σ : Type) (transport : Transport σ) (connection : Nat) (request : Request),
      Line.exchange transport connection request =
        (request.frame.send (transport.send connection) >>= fun _ => Reply.receive (transport.take connection))) ∧
    ∀ reply : Reply, Connection.sendable reply = match sent Reply.measure reply with
      | .ok () => reply
      | .error e => .error e.message := by
  refine ⟨fun requests named => Request.framed.streamed named, fun replies => Reply.framed.streamed fun _ _ => trivial,
    fun stream header => Frame.refuses_iff header, fun r fits => ?_, fun _ => Line.exchange_eq, Connection.sendable_eq⟩
  have counted := Request.counted_of_fits ((Request.framed.fits_iff r).mpr fits)
  have word {n : Nat} (small : n < 2 ^ 32) : Bytes.toNatBE (Request.encodeNat n) = n := by
    rw [Request.encodeNat, Bytes.toNatBE_ofNatBE]
    exact Nat.mod_eq_of_lt small
  exact ⟨word counted.args, fun arg member => word (counted.arg arg member)⟩

/-- Two pings, the second of which is cut off. -/
theorem Wire.streams_in_frames_cut : (∀ r ∈ [Connection.ping, Connection.ping], r.args ≠ []) ∧
    receiveAll (Request.receive Wire.take) (Connection.ping.encode ++ Connection.ping.encode.take 7) =
      ([Connection.ping], some (.io .unexpectedEof), []) := by
  have named : ∀ r ∈ [Connection.ping, Connection.ping], r.args ≠ [] := by decide
  obtain ⟨k, -, exact, read⟩ := (streams_in_frames.1 _ named).cut
    (Connection.ping.encode ++ Connection.ping.encode.take 7) (by decide)
  have first : 0 < k := (exact 0 (by decide)).mpr (by decide)
  have second : ¬ 1 < k := fun more => absurd ((exact 1 (by decide)).mp more) (by decide)
  obtain rfl : k = 1 := by omega
  exact ⟨named, read⟩

end Shiplog
