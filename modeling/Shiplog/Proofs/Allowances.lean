import Shiplog.Replication.Peer
import Shiplog.Proofs.Actions
import Shiplog.Proofs.Layouts
import Shiplog.Proofs.Streams

/-!
The room that a frame leaves for a write. A client's request and the request that hands the record
of its write to a standby go in frames of one limit, and each adds a fixed number of bytes to the
key and the value, the record's more than the client's. So what a client may send is not all that
may be handed on, and what is handed on to a node that answers arrives just when it fits
(`Peer.hands_on_what_fits`).
-/
namespace Shiplog

open Wire

theorem Bytes.length_zeros (n : Nat) : (zeros n).length = n := List.length_replicate

namespace Request

variable {r : Request}

/-- A request is sent on a stream, and read back off it. -/
def Passes (r : Request) : Prop :=
  ∃ stream, (r.frame.send put).perform [] = (.ok (), stream) ∧ (receive Wire.take).perform stream = (.ok r, [])

/-- A request that names a command passes just when its payload is within the limit. -/
theorem passes_iff (named : r.args ≠ []) : r.Passes ↔ r.measure ≤ Frame.maxPayload := by
  constructor
  · rintro ⟨stream, done, -⟩
    by_contra large
    rw [framed.perform_send, sent, if_neg large] at done
    cases done
  · intro fits
    refine ⟨r.frame.encode, ?_, ?_⟩
    · rw [framed.perform_send, sent, if_pos fits, if_pos fits, List.nil_append]
    · have read := framed.reads named ((framed.fits_iff r).mpr fits) []
      rwa [List.append_nil] at read

theorem measure_command (name : String) (args : List Bytes) :
    (command name args).measure = 8 + name.utf8ByteSize + (args.map fun arg => 4 + arg.length).sum := by
  have size : (Text.toBytes name).length = name.utf8ByteSize := by simp [Text.toBytes_eq]
  rw [measure, command, List.map_cons, List.sum_cons, size]
  omega

end Request

namespace Line

variable {σ : Type} {transport : Transport σ} {line : Line}

/-- The node at an address is well: it can be reached, and answers `OK` to whatever is sent. -/
structure Healthy (transport : Transport σ) (address : String) : Prop where
  reached : ∀ s, ∃ connection s', (dial transport address).perform s = (.ok connection, s')
  answers : ∀ connection bytes s, ∃ s',
    (transport.send connection bytes >>= fun _ => Reply.receive (transport.take connection)).perform s = (.ok .ok, s')

/-- A call to a node that is well fails for the size of the request alone. -/
theorem Healthy.perform_call (healthy : Healthy transport line.address) (request : Request) (s : σ) :
    ∃ line' s', (call transport request).perform (line, s) =
      ((sent Request.measure request).map fun _ => Reply.ok, line', s') ∧ line'.address = line.address := by
  obtain ⟨connection, s₁, reached⟩ : ∃ connection s₁, (reach transport line).perform s = (.ok connection, s₁) := by
    rw [reach]
    cases line.connection with
    | none => exact healthy.reached s
    | some connection => exact ⟨connection, s, rfl⟩
  by_cases fits : request.measure ≤ Frame.maxPayload
  · obtain ⟨s₂, answered⟩ := healthy.answers connection request.frame.encode s₁
    have exchanged : (exchange transport connection request).perform s₁ = (.ok .ok, s₂) := by
      rw [exchange, Frame.check_write ((Request.framed.fits_iff request).mpr fits)]
      exact answered
    refine ⟨{ line with connection := some connection }, s₂, ?_, rfl⟩
    rw [call, Action.perform_ofStep, sent, if_pos fits]
    simp only [reached, exchanged]
    rfl
  · have large : Frame.maxPayload < request.frame.payload.length := by
      rw [Request.length_payload]
      exact Nat.lt_of_not_le fits
    have exchanged : (exchange transport connection request).perform s₁ =
        (.error (.protocol (Flaw.tooLarge request.measure).text), s₁) := by
      rw [exchange, Frame.check_write_error large, Request.length_payload]
      rfl
    refine ⟨line.disconnect, s₁, ?_, rfl⟩
    rw [call, Action.perform_ofStep, sent, if_neg fits]
    simp only [reached, exchanged]
    rfl

end Line

namespace Peer

variable {σ : Type} {transport : Transport σ} {line : Line}

/-- What comes of every try comes of trying again. -/
theorem perform_retry {P : σ → Prop} {act : Action σ Unit} {answer : Except Error Unit}
    (steady : ∀ s, P s → ∃ s', act.perform s = (answer, s') ∧ P s') (again : Nat) {s : σ} (holds : P s) :
    ∃ s', (retry act again).perform s = (answer, s') ∧ P s' := by
  induction again generalizing s with
  | zero => exact steady s holds
  | succ again ih =>
    obtain ⟨s₁, first, holds₁⟩ := steady s holds
    rw [retry, Action.perform_tryCatch, first]
    cases answer with
    | ok => exact ⟨s₁, rfl, holds₁⟩
    | error e => exact ih holds₁

/-- A log is handed to a node that is well, unless it is too long. -/
theorem perform_ship (healthy : Line.Healthy transport line.address) (log : Bytes) (s : σ) : ∃ line' s',
    (ship (Line.call transport) log).perform (line, s) = (sent Request.measure (shipRequest log), line', s') := by
  have once : ∀ state : Line × σ, state.1.address = line.address → ∃ state',
      (shipOnce (Line.call transport) log).perform state = (sent Request.measure (shipRequest log), state') ∧
        state'.1.address = line.address := by
    rintro ⟨line₁, s₁⟩ same
    rw [← same] at healthy
    obtain ⟨line₂, s₂, called, same'⟩ := healthy.perform_call (shipRequest log) s₁
    refine ⟨(line₂, s₂), ?_, same'.trans same⟩
    rw [shipOnce, Action.perform_bind, called]
    cases sent Request.measure (shipRequest log) <;> rfl
  obtain ⟨⟨line', s'⟩, shipped, -⟩ := perform_retry (P := fun state => state.1.address = line.address) once
    (shipAttempts - 1) (s := (line, s)) rfl
  exact ⟨line', s', shipped⟩

theorem measure_shipRequest (record : LoggedEntry) :
    (shipRequest (LoggedEntry.layout.write record)).measure = 68 + record.entry.key.length + record.entry.value.length := by
  have name : shipCommand.utf8ByteSize = 15 := by decide
  rw [shipRequest, Request.measure_command, name, List.map_singleton, List.sum_singleton, LoggedEntry.length_write]
  omega

/-- How far a write is carried by frames: what a client sends for it, with some bytes more than the
    key and the value, and what hands its record on, with 68 more. -/
structure Carries (request : Request) (more : Nat) (entry : Entry) : Prop where
  accepted : request.Passes ↔ more + entry.key.length + entry.value.length ≤ Frame.maxPayload
  handedOn : ∀ position, (shipRequest (LoggedEntry.layout.write ⟨position, entry⟩)).Passes ↔
    68 + entry.key.length + entry.value.length ≤ Frame.maxPayload
  shipped : ∀ position {σ : Type} (transport : Transport σ) (line : Line) (s : σ),
    Line.Healthy transport line.address →
    ((ship (Line.call transport) (LoggedEntry.layout.write ⟨position, entry⟩)).perform (line, s)).1 =
      if 68 + entry.key.length + entry.value.length ≤ Frame.maxPayload then .ok ()
      else .error (.protocol (Flaw.tooLarge (68 + entry.key.length + entry.value.length)).text)

theorem carries_of_measure {request : Request} {more : Nat} {entry : Entry} (named : request.args ≠ [])
    (measured : request.measure = more + entry.key.length + entry.value.length) : Carries request more entry := by
  refine ⟨?_, fun position => ?_, fun position σ transport line s healthy => ?_⟩
  · rw [Request.passes_iff named, measured]
  · rw [Request.passes_iff (by simp [shipRequest, Request.command]), measure_shipRequest]
  · obtain ⟨line', s', shipped⟩ := perform_ship healthy (LoggedEntry.layout.write ⟨position, entry⟩) s
    rw [shipped, sent, measure_shipRequest]

theorem carries_put (key value : Bytes) : Carries (.command "SET" [key, value]) 19 (.put key value) := by
  refine carries_of_measure (List.cons_ne_nil _ _) ?_
  have name : "SET".utf8ByteSize = 3 := by decide
  rw [Request.measure_command, name]
  simp only [List.map_cons, List.map_nil, List.sum_cons, List.sum_nil, Entry.put]
  omega

theorem carries_delete (key : Bytes) : Carries (.command "DEL" [key]) 15 (.delete key) := by
  refine carries_of_measure (List.cons_ne_nil _ _) ?_
  have name : "DEL".utf8ByteSize = 3 := by decide
  rw [Request.measure_command, name]
  simp only [List.map_cons, List.map_nil, List.sum_cons, List.sum_nil, Entry.delete, List.length_nil]
  omega

/-- A client's write is handed on to a node that is well just when the key and the value leave 68
    bytes of a frame's payload; a client is held to 19 for a put, and to 15 for a delete. -/
theorem hands_on_what_fits (key value : Bytes) : Carries (.command "SET" [key, value]) 19 (.put key value) ∧
    Carries (.command "DEL" [key]) 15 (.delete key) :=
  ⟨carries_put key value, carries_delete key⟩

/-- A node that answers on every connection as soon as something is sent. -/
def prompt : Transport Bytes where
  dial _ s := (.ok 0, s)
  send _ _ := Action.ofStep fun _ => (.ok (), Reply.ok.encode)
  take _ := Wire.take

theorem healthy_prompt : Line.Healthy prompt "localhost:7000" := by
  have address : Address.check "localhost:7000" = .ok () := by decide
  refine ⟨fun s => ⟨0, s, ?_⟩, fun connection bytes s => ⟨[], ?_⟩⟩
  · simp only [Line.dial, address]
    rfl
  · have fits : Reply.ok.frame.Fits := (Reply.framed.fits_iff .ok).mpr (by decide)
    have read := Reply.perform_receive_encode fits []
    rw [List.append_nil] at read
    exact read

theorem hands_on_what_fits_prompt : Line.Healthy prompt "localhost:7000" ∧
    (Request.command "SET" [[107], [118]]).Passes ∧
    ((ship (Line.call prompt) (LoggedEntry.layout.write ⟨⟨1, 1, 1⟩, .put [107] [118]⟩)).perform
      (Line.idle "localhost:7000", [])).1 = .ok () := by
  obtain ⟨carries, -⟩ := hands_on_what_fits [107] [118]
  refine ⟨healthy_prompt, carries.accepted.mpr (by decide), ?_⟩
  rw [carries.shipped _ prompt (Line.idle "localhost:7000") [] healthy_prompt, if_pos (by decide)]

/-- A write that a client may send, with nothing of the limit left, is not handed on. -/
theorem refuses_full_write {value : Bytes} (length : value.length = 536870892) :
    (Request.command "SET" [[107], value]).Passes ∧
    ¬ (shipRequest (LoggedEntry.layout.write ⟨⟨1, 1, 1⟩, .put [107] value⟩)).Passes ∧
    ((ship (Line.call prompt) (LoggedEntry.layout.write ⟨⟨1, 1, 1⟩, .put [107] value⟩)).perform
      (Line.idle "localhost:7000", [])).1 = .error (.protocol (Flaw.tooLarge 536870961).text) := by
  have limit : Frame.maxPayload = 536870912 := rfl
  have carries := carries_put [107] value
  have key : (Entry.put [107] value).key.length = 1 := rfl
  have size : (Entry.put [107] value).value.length = 536870892 := length
  refine ⟨carries.accepted.mpr ?_, fun passes => ?_, ?_⟩
  · rw [key, size, limit]
  · have fits := (carries.handedOn _).mp passes
    rw [key, size, limit] at fits
    omega
  · rw [carries.shipped _ prompt (Line.idle "localhost:7000") [] healthy_prompt, key, size, limit, if_neg (by decide)]

/-- The key is `k`, and the value is of zeros. -/
theorem refuses_full_write_of_zeros : (Request.command "SET" [[107], Bytes.zeros 536870892]).Passes ∧
    ¬ (shipRequest (LoggedEntry.layout.write ⟨⟨1, 1, 1⟩, .put [107] (Bytes.zeros 536870892)⟩)).Passes ∧
    ((ship (Line.call prompt) (LoggedEntry.layout.write ⟨⟨1, 1, 1⟩, .put [107] (Bytes.zeros 536870892)⟩)).perform
      (Line.idle "localhost:7000", [])).1 = .error (.protocol (Flaw.tooLarge 536870961).text) :=
  refuses_full_write (Bytes.length_zeros _)

end Peer
end Shiplog
