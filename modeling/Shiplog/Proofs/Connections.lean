import Shiplog.Proofs.Messages

/-!
Connections answer every request. Whatever a client sends falls into the frames of sound
requests and a remainder that begins with none (`exists_parted`). The requests are answered
one by one in their order, each with one reply (`Served`), and the remainder with one error
reply if it begins with a message that is malformed and with none if it is empty or ends
inside a message (`Ends`); nothing behind a malformed message is looked at
(`serve_answers`). The replies sent are read back as they are, up to the last byte.
-/
namespace Shiplog

open Wire

/-- Messages read off a stream one after another, up to its end. -/
inductive Wire.Reads {α : Type} (receive : Action Bytes α) : Bytes → List α → Prop
  | nil : Reads receive [] []
  | cons {stream rest : Bytes} {a : α} {as : List α} (first : receive.perform stream = (.ok a, rest))
      (later : Reads receive rest as) : Reads receive stream (a :: as)

namespace Connection

variable {σ : Type} {commands : Commands σ}

/-! ## What a client sends -/

/-- A stream that begins with no sound request, and the replies to it: none if it is empty
    or ends inside a frame, else one that reports what is wrong with its first frame. -/
inductive Ends : Bytes → List Reply → Prop
  | cut {stream : Bytes} (cut : Frame.Cut stream) : Ends stream []
  | oversized {stream : Bytes} (large : Frame.Oversized stream) :
      Ends stream [.error (Flaw.tooLarge (Frame.announced stream)).toError.message]
  | undecodable {f : Frame} {flaw : Flaw} (fits : f.Fits) (refused : Request.ofFrame f = .error flaw) (rest : Bytes) :
      Ends (f.encode ++ rest) [.error flaw.toError.message]

variable {stream rest : Bytes} {request : Request} {last : List Reply}

theorem arrival_encode (sound : request.Sound) (rest : Bytes) :
    arrival (request.encode ++ rest) = .request request rest := by
  rw [arrival, Request.perform_receive_encode sound]

/-- What comes in place of a request is answered as it should be. -/
theorem Ends.arrival (ends : Ends stream last) :
    arrival stream = .ended ∧ last = [] ∨ ∃ e, arrival stream = .malformed e ∧ last = [.error e.message] := by
  cases ends with
  | cut cut =>
    left
    rw [Connection.arrival, Request.receive, Action.perform_bind_error (Frame.perform_receive_of_cut cut)]
    exact ⟨rfl, rfl⟩
  | oversized large =>
    right
    rw [Connection.arrival, Request.receive, Action.perform_bind_error (Frame.perform_receive_of_oversized large)]
    exact ⟨_, rfl, rfl⟩
  | undecodable fits refused rest =>
    right
    rw [Connection.arrival, Request.receive, Action.perform_bind_ok (Frame.perform_receive_encode fits rest), refused]
    exact ⟨_, rfl, rfl⟩

theorem Ends.unique {last' : List Reply} (ends : Ends stream last) (ends' : Ends stream last') : last = last' := by
  rcases ends.arrival with ⟨came, rfl⟩ | ⟨e, came, rfl⟩ <;>
    rcases ends'.arrival with ⟨came', rfl⟩ | ⟨e', came', rfl⟩ <;> simp_all

/-- What comes behind a malformed message changes nothing in its answer. -/
theorem Ends.append (ends : Ends stream last) (some_reply : last ≠ []) (more : Bytes) : Ends (stream ++ more) last := by
  cases ends with
  | cut cut => exact absurd rfl some_reply
  | oversized large =>
    have same : Frame.announced (stream ++ more) = Frame.announced stream := by
      rw [← Frame.announced_take, List.take_append_of_le_length large.1, Frame.announced_take]
    rw [← same]
    refine .oversized ⟨?_, same ▸ large.2⟩
    rw [List.length_append]
    exact Nat.le_add_right_of_le large.1
  | undecodable fits refused rest =>
    rw [List.append_assoc]
    exact .undecodable fits refused (rest ++ more)

/-- A stream falls into as many sound requests as it begins with and what is left. -/
structure Parted (stream : Bytes) (requests : List Request) (rest : Bytes) : Prop where
  joined : stream = requests.flatMap Request.encode ++ rest
  sound : ∀ request ∈ requests, request.Sound
  maximal : ∀ request : Request, request.Sound → ¬ request.encode <+: rest

theorem Ends.maximal (ends : Ends stream last) (request : Request) (sound : request.Sound) :
    ¬ request.encode <+: stream := by
  rintro ⟨behind, rfl⟩
  have came := arrival_encode sound behind
  rcases ends.arrival with ⟨ended, -⟩ | ⟨e, malformed, -⟩
  · rw [ended] at came
    cases came
  · rw [malformed] at came
    cases came

/-- A stream begins with a sound request, or it is answered as one that does not. -/
theorem exists_ends (stream : Bytes) :
    (∃ request rest, Request.Sound request ∧ stream = request.encode ++ rest) ∨ ∃ last, Ends stream last := by
  rcases Frame.front_cases stream with cut | large | ⟨f, behind, fits, rfl⟩
  · exact .inr ⟨_, .cut cut⟩
  · exact .inr ⟨_, .oversized large⟩
  · rcases Request.ofFrame_cases f with ⟨request, rfl, named, -⟩ | ⟨flaw, refused, -⟩
    · exact .inl ⟨request, behind, ⟨named, fits⟩, rfl⟩
    · exact .inr ⟨_, .undecodable fits refused behind⟩

theorem exists_parted (stream : Bytes) : ∃ requests rest, Parted stream requests rest := by
  induction length : stream.length using Nat.strong_induction_on generalizing stream with
  | _ n ih =>
    subst length
    rcases exists_ends stream with ⟨request, behind, sound, rfl⟩ | ⟨last, ends⟩
    · have shorter := length_lt_of_arrival (arrival_encode sound behind)
      obtain ⟨requests, rest, parted⟩ := ih _ shorter behind rfl
      refine ⟨request :: requests, rest, ?_, ?_, parted.maximal⟩
      · rw [List.flatMap_cons, List.append_assoc, ← parted.joined]
      · exact List.forall_mem_cons.mpr ⟨sound, parted.sound⟩
    · exact ⟨[], stream, rfl, by simp, ends.maximal⟩

theorem Parted.exists_ends {requests : List Request} (parted : Parted stream requests rest) : ∃ last, Ends rest last := by
  rcases Connection.exists_ends rest with ⟨request, behind, sound, rfl⟩ | ends
  · exact absurd ⟨behind, rfl⟩ (parted.maximal request sound)
  · exact ends

/-! ## What the server answers -/

/-- What a request comes to: its reply, or the error of its handler, or that no handler
    has its name, and the state after it. -/
inductive Dispatched (commands : Commands σ) (s : σ) (request : Request) : Reply → σ → Prop
  | replied {name : String} {handler : Handler σ} {reply : Reply} {s' : σ} (named : request.name? = some name)
      (known : commands.table.get? name = some handler) (done : (handler request.args).perform s = (.ok reply, s')) :
      Dispatched commands s request reply s'
  | failed {name : String} {handler : Handler σ} {e : Error} {s' : σ} (named : request.name? = some name)
      (known : commands.table.get? name = some handler) (failed : (handler request.args).perform s = (.error e, s')) :
      Dispatched commands s request (.error e.message) s'
  | unknown {name : String} (named : request.name? = some name) (unknown : commands.table.get? name = none) :
      Dispatched commands s request (.error ("unknown command: " ++ name)) s

/-- The reply sent for a reply: itself, or a report of its length if it is too long. -/
inductive Sent (reply : Reply) : Reply → Prop
  | whole (fits : reply.frame.Fits) : Sent reply reply
  | oversized (large : Frame.maxPayload < reply.payload.length) :
      Sent reply (.error (Flaw.tooLarge reply.payload.length).toError.message)

/-- Requests answered in their order, each with one reply. -/
inductive Served (commands : Commands σ) : σ → List Request → List Reply → σ → Prop
  | nil (s : σ) : Served commands s [] [] s
  | cons {s s₁ s₂ : σ} {request : Request} {requests : List Request} {reply sent : Reply} {replies : List Reply}
      (dispatched : Dispatched commands s request reply s₁) (sends : Sent reply sent)
      (later : Served commands s₁ requests replies s₂) :
      Served commands s (request :: requests) (sent :: replies) s₂

theorem sent_sendable (reply : Reply) : Sent reply (sendable reply) := by
  by_cases large : Frame.maxPayload < reply.payload.length
  · have sent : sendable reply = .error (Flaw.tooLarge reply.payload.length).toError.message := by
      rw [sendable, Frame.checkLength, if_pos large]
    exact sent ▸ .oversized large
  · have sent : sendable reply = reply := by rw [sendable, Frame.checkLength, if_neg large]
    rw [sent]
    exact .whole (Nat.le_of_not_lt large)

theorem dispatched_dispatch (sound : request.Sound) (s : σ) :
    Dispatched commands s request (commands.dispatch request s).1 (commands.dispatch request s).2 := by
  obtain ⟨arg, args, same⟩ := List.exists_cons_of_ne_nil sound.named
  have named : request.name? = some (Text.lossy arg).toLower := by rw [Request.name?, same]; rfl
  cases found : commands.table.get? (Text.lossy arg).toLower with
  | none =>
    have run : commands.dispatch request s = (.error ("unknown command: " ++ (Text.lossy arg).toLower), s) := by
      rw [Commands.dispatch, named]
      simp only [found]
      rfl
    rw [run]
    exact .unknown named found
  | some handler =>
    have run : commands.dispatch request s = (Commands.replyTo ((handler request.args).perform s).1,
        ((handler request.args).perform s).2) := by
      rw [Commands.dispatch, named]
      simp only [found]
      rfl
    rw [run]
    cases done : (handler request.args).perform s with
    | mk answer s' =>
      cases answer with
      | ok reply => exact .replied named found done
      | error e => exact .failed named found done

theorem serve_of_ends (ends : Ends stream last) : serve commands stream = pure last := by
  rcases ends.arrival with ⟨ended, rfl⟩ | ⟨e, malformed, rfl⟩
  · rw [serve]
    split <;> simp_all
  · rw [serve]
    split <;> simp_all

theorem serve_encode (sound : request.Sound) (rest : Bytes) : serve commands (request.encode ++ rest) = do
    let reply ← commands.dispatch request
    return sendable reply :: (← serve commands rest) := by
  have came := arrival_encode sound rest
  rw [serve]
  split <;> simp_all

/-- Requests in front leave what is made of the rest as it is. -/
theorem serve_congr {requests : List Request} (sound : ∀ request ∈ requests, request.Sound) {rest' : Bytes}
    (same : serve commands rest = serve commands rest') :
    serve commands (requests.flatMap Request.encode ++ rest) = serve commands (requests.flatMap Request.encode ++ rest') := by
  induction requests with
  | nil => exact same
  | cons request requests ih =>
    rw [List.forall_mem_cons] at sound
    simp only [List.flatMap_cons, List.append_assoc, serve_encode sound.1, ih sound.2]

/-- Requests are answered in order, and what follows them as its own front demands. -/
theorem exists_served (commands : Commands σ) {requests : List Request} (sound : ∀ request ∈ requests, request.Sound)
    (ends : Ends rest last) (s : σ) : ∃ replies s', Served commands s requests replies s' ∧
      serve commands (requests.flatMap Request.encode ++ rest) s = (replies ++ last, s') := by
  induction requests generalizing s with
  | nil =>
    refine ⟨[], s, .nil s, ?_⟩
    rw [List.flatMap_nil, List.nil_append, serve_of_ends ends]
    rfl
  | cons request requests ih =>
    rw [List.forall_mem_cons] at sound
    obtain ⟨replies, s', served, run⟩ := ih sound.2 (commands.dispatch request s).2
    refine ⟨sendable (commands.dispatch request s).1 :: replies, s',
      .cons (dispatched_dispatch sound.1 s) (sent_sendable _) served, ?_⟩
    have step : serve commands (request.encode ++ (requests.flatMap Request.encode ++ rest)) s =
        (sendable (commands.dispatch request s).1 ::
            (serve commands (requests.flatMap Request.encode ++ rest) (commands.dispatch request s).2).1,
          (serve commands (requests.flatMap Request.encode ++ rest) (commands.dispatch request s).2).2) := by
      rw [serve_encode sound.1]
      rfl
    rw [List.flatMap_cons, List.append_assoc, step, run]
    rfl

/-! ## What the client reads -/

/-- The length of every reply that a handler gives, and of every message that one fails
    with, is a word, as lengths are in memory. The report of a reply that is too long states
    its length, so it is this that keeps the reports short. -/
def Sized (commands : Commands σ) : Prop :=
  ∀ name handler, commands.table.get? name = some handler → ∀ args s,
    (Commands.replyTo ((handler args).perform s).1).payload.length < 2 ^ 64

theorem length_name_lt {name : String} (sound : request.Sound) (named : request.name? = some name) :
    name.length < 2 ^ 32 := by
  obtain ⟨arg, first, rfl⟩ := Option.map_eq_some_iff.mp named
  have short := (Request.counted_of_fits sound.fits).arg arg (List.mem_of_head? first)
  rw [String.toLower, String.length_map]
  exact Nat.lt_of_le_of_lt (Text.length_lossy_le arg) short

variable {s s' : σ} {reply sent : Reply} {requests : List Request} {replies : List Reply}

theorem Dispatched.lt (dispatched : Dispatched commands s request reply s') (sized : Sized commands)
    (sound : request.Sound) : reply.payload.length < 2 ^ 64 := by
  cases dispatched with
  | replied named known done =>
    have small := sized _ _ known request.args s
    rwa [done] at small
  | failed named known failed =>
    have small := sized _ _ known request.args s
    rwa [failed] at small
  | @unknown name named unknown =>
    have short := length_name_lt sound named
    have bytes := Text.length_toBytes_le ("unknown command: " ++ name)
    rw [String.length_append] at bytes
    have words : "unknown command: ".length = 17 := by decide
    simp only [Reply.payload]
    omega

theorem Sent.fits (sends : Sent reply sent) (small : reply.payload.length < 2 ^ 64) : sent.frame.Fits := by
  cases sends with
  | whole fits => exact fits
  | oversized large => exact Reply.fits_report (by simpa [Flaw.Small, Flaw.numbers] using small)

theorem Served.fits (served : Served commands s requests replies s') (sized : Sized commands)
    (sound : ∀ request ∈ requests, request.Sound) : ∀ reply ∈ replies, reply.frame.Fits := by
  induction served with
  | nil => simp
  | cons dispatched sends later ih =>
    rw [List.forall_mem_cons] at sound ⊢
    exact ⟨sends.fits (dispatched.lt sized sound.1), ih sound.2⟩

theorem Ends.fits (ends : Ends stream last) : ∀ reply ∈ last, reply.frame.Fits := by
  cases ends with
  | cut cut => simp
  | oversized large =>
    have word := Frame.announced_lt stream
    have small : (Flaw.tooLarge (Frame.announced stream)).Small := by
      simp only [Flaw.Small, Flaw.numbers, List.mem_singleton, forall_eq]
      omega
    simpa using Reply.fits_report small
  | @undecodable f flaw fits refused rest =>
    have small : flaw.Small := by
      rcases Request.ofFrame_cases f with ⟨request, rfl, named, counted⟩ | ⟨flaw', refused', small⟩
      · rw [Request.ofFrame_frame named counted] at refused
        cases refused
      · rw [refused'] at refused
        cases refused
        exact small fits
    simpa using Reply.fits_report small

theorem reads_output (fits : ∀ reply ∈ replies, reply.frame.Fits) :
    Reads (Reply.receive Wire.take) (output replies) replies := by
  induction replies with
  | nil => exact .nil
  | cons reply replies ih =>
    rw [List.forall_mem_cons] at fits
    exact .cons (Reply.perform_receive_encode fits.1 (output replies)) (ih fits.2)

/-- Whatever a client sends falls into the longest run of sound requests that it begins with
    and a rest. Each of the requests is answered in order with one reply, and the rest with
    one error reply, behind which nothing is looked at, or with none at the end of the stream
    or inside a message. Where lengths are words, the client reads the replies back as they
    were sent, and no byte is left over. -/
theorem serve_answers (commands : Commands σ) (stream : Bytes) (s : σ) :
    (∃ requests rest, Parted stream requests rest) ∧
    ∀ requests rest, Parted stream requests rest → ∃ replies last s',
      Served commands s requests replies s' ∧ Ends rest last ∧ serve commands stream s = (replies ++ last, s') ∧
      (last ≠ [] → ∀ more, serve commands (stream ++ more) = serve commands stream) ∧
      (Sized commands → Reads (Reply.receive Wire.take) (output (replies ++ last)) (replies ++ last)) := by
  refine ⟨exists_parted stream, fun requests rest parted => ?_⟩
  obtain ⟨last, ends⟩ := parted.exists_ends
  obtain ⟨replies, s', served, run⟩ := exists_served commands parted.sound ends s
  refine ⟨replies, last, s', served, ends, ?_, ?_, ?_⟩
  · rw [parted.joined, run]
  · intro some_reply more
    rw [parted.joined, List.append_assoc]
    apply serve_congr parted.sound
    rw [serve_of_ends (ends.append some_reply more), serve_of_ends ends]
  · intro sized
    have fits : ∀ reply ∈ replies ++ last, reply.frame.Fits := by
      intro reply member
      rcases List.mem_append.mp member with earlier | final
      · exact served.fits sized parted.sound reply earlier
      · exact ends.fits reply final
    exact reads_output fits

/-- The request to answer a ping. -/
def ping : Request :=
  ⟨[[0x50, 0x49, 0x4E, 0x47]]⟩

theorem dispatched_ping {reply : Reply} {s s' : σ} (dispatched : Dispatched Commands.basic s ping reply s') :
    reply = .status "PONG" ∧ s' = s := by
  have name : ping.name? = some "PING".toLower := by
    simp [ping, Request.name?, Text.lossy, Text.lossyChars, Text.shape?, Text.fitting, Text.character, Text.leadBits]
  have table : (Commands.basic : Commands σ).table.get? "PING".toLower = some fun _ => return .status "PONG" := by
    simp [Commands.basic, Commands.register, OrderedMap.insert, OrderedMap.insertEntry, OrderedMap.empty, OrderedMap.get?]
  cases dispatched with
  | replied named known done =>
    obtain rfl := Option.some.inj (name.symm.trans named)
    obtain rfl := Option.some.inj (table.symm.trans known)
    cases done
    exact ⟨rfl, rfl⟩
  | failed named known failed =>
    obtain rfl := Option.some.inj (name.symm.trans named)
    obtain rfl := Option.some.inj (table.symm.trans known)
    cases failed
  | unknown named unknown =>
    obtain rfl := Option.some.inj (name.symm.trans named)
    rw [table] at unknown
    cases unknown

theorem length_pong : (Reply.status "PONG").payload.length ≤ 16 :=
  Text.length_toBytes_le "PONG"

theorem sized_basic : Sized (Commands.basic : Commands σ) := by
  intro name handler known args s
  have pong : handler = fun _ => return .status "PONG" := by
    have entry := known
    simp only [Commands.basic, Commands.register, OrderedMap.insert, OrderedMap.insertEntry, OrderedMap.empty,
      OrderedMap.get?, List.lookup] at entry
    split at entry
    · exact (Option.some.inj entry).symm
    · cases entry
  rw [pong]
  exact Nat.lt_of_le_of_lt length_pong (by decide)

/-- A ping, then an empty message of another kind with a byte behind it. -/
theorem serve_answers_ping : Sized (Commands.basic : Commands Unit) ∧
    ∃ replies, replies = [.status "PONG", .error "Protocol error: Unknown request kind: 0x00"] ∧
      serve Commands.basic (ping.encode ++ [0, 0, 0, 0, 0, 7]) () = (replies, ()) ∧
      Reads (Reply.receive Wire.take) (output replies) replies := by
  have sound : ping.Sound := ⟨by decide, by decide⟩
  have refused : Request.ofFrame ⟨0, []⟩ = .error (.notRequest 0) := rfl
  have ends : Ends [0, 0, 0, 0, 0, 7] [.error (Flaw.notRequest 0).toError.message] :=
    .undecodable (by decide) refused [7]
  have parted : Parted (ping.encode ++ [0, 0, 0, 0, 0, 7]) [ping] [0, 0, 0, 0, 0, 7] :=
    ⟨by simp, by simpa using sound, ends.maximal⟩
  obtain ⟨replies, last, s', served, ended, run, -, reads⟩ := (serve_answers Commands.basic _ ()).2 _ _ parted
  obtain rfl := ended.unique ends
  have replies_eq : replies = [.status "PONG"] := by
    cases served with
    | cons dispatched sends later =>
      obtain ⟨rfl, -⟩ := dispatched_ping dispatched
      cases later
      cases sends with
      | whole fits => rfl
      | oversized large => exact absurd (Nat.lt_of_lt_of_le large length_pong) (by decide)
  subst replies_eq
  refine ⟨sized_basic, _, ?_, run, reads sized_basic⟩
  rfl

end Connection
end Shiplog
