import Shiplog.Commands

/-!
One connection as the serving side sees it: each request on it is answered in
order with one reply. A request that is malformed gets an error reply and ends
the connection; the end of the stream, also inside a request, ends it silently.
-/
namespace Shiplog.Connection

/-- What the stream of requests holds next. -/
inductive Arrival where
  /-- A request, and the stream behind it. -/
  | request (request : Request) (rest : Bytes)
  | malformed (e : Error)
  /-- No complete message. -/
  | ended
  deriving DecidableEq

def arrival (stream : Bytes) : Arrival :=
  match (Request.receive Wire.take).perform stream with
  | (.ok request, rest) => .request request rest
  | (.error (.io _), _) => .ended
  | (.error e, _) => .malformed e

/-- A reply that can be sent: one too large for a frame gives way to an error
    reply that says so. -/
def sendable (reply : Reply) : Reply :=
  match Frame.checkLength reply.payload.length with
  | .ok () => reply
  | .error flaw => .error flaw.toError.message

/-- The stream behind a message is shorter than the stream in front of it. -/
theorem length_lt_of_arrival {stream rest : Bytes} {request : Request}
    (came : arrival stream = .request request rest) : rest.length < stream.length := by
  rw [arrival] at came
  split at came
  · rename_i read
    cases came
    obtain ⟨_, _, received, parsed⟩ := Action.perform_bind_eq_ok.mp read
    obtain ⟨_, rfl⟩ := Prod.mk.inj parsed
    exact Frame.length_lt_of_receive received
  · cases came
  · cases came

/-- The replies to the requests on a stream, in order, and the state that their
    handlers leave. -/
def serve {σ : Type} (commands : Commands σ) (stream : Bytes) : StateM σ (List Reply) :=
  match _came : arrival stream with
  | .request request rest => do
    let reply ← commands.dispatch request
    return sendable reply :: (← serve commands rest)
  | .malformed e => return [.error e.message]
  | .ended => return []
termination_by stream.length
decreasing_by exact length_lt_of_arrival _came

/-- The bytes that the other side receives. -/
def output (replies : List Reply) : Bytes :=
  replies.flatMap Reply.encode

end Shiplog.Connection
