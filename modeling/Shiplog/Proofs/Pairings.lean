import Shiplog.Line
import Shiplog.Proofs.Actions
import Shiplog.Proofs.Connections
import Shiplog.Proofs.Replies

/-!
Calls and replies in pairs. Nothing on a connection says which request a reply belongs to, so a
line keeps its connection only as long as nothing on it is unread (`Line.Calm`): every call that
fails gives up the connection, with whatever may still arrive on it. So whatever becomes of the
calls before, a reply that a call returns is what the other side sent for that very request
(`Line.Paired`), of a serving connection the reply to the request; and over a whole run the
requests and replies on a connection match in their order (`Line.Tallied`).
-/
namespace Shiplog

open Wire

/-! ## A network -/

/-- What went over a connection so far. -/
@[ext] structure Talk where
  /-- The messages that the other side received, in order, each with what it sent for it. -/
  heard : List (Bytes × Bytes)
  /-- What it sent that is not read yet, or will not arrive in time to be. -/
  unread : Bytes

/-- What becomes of one call on its way: the other side may send anything for the request,
    but no more than one frame. -/
structure Fate where
  /-- How opening a connection ends, where one is opened. -/
  opening : Except Fault Unit
  /-- How sending the request ends, -/
  sending : Except Fault Unit
  /-- and whether all of it is received. -/
  received : Bool
  /-- All that is ever sent for it, if it is: a frame, part of one or nothing. -/
  answer : Bytes
  /-- How many bytes arrive in time, -/
  arriving : Nat
  /-- and how the wait for more of them ends. -/
  ending : Fault
  single : answer.length ≤ Frame.headerSize + Frame.announced answer

/-- Some of the bytes that arrive in time are read. -/
def Fate.spend (fate : Fate) (n : Nat) : Fate := { fate with arriving := fate.arriving - n }

/-- A frame in front of what is sent for a request is all that is sent. -/
theorem Fate.rest_eq_nil {fate : Fate} {f : Frame} {rest : Bytes} (fits : f.Fits)
    (sends : fate.answer = f.encode ++ rest) : rest = [] := by
  have single := fate.single
  rw [sends, Frame.announced_eq_length fits, List.length_append] at single
  exact List.eq_nil_of_length_eq_zero (by omega)

/-- The connections opened so far, which are numbered in their order, and what went over them. -/
structure Network where
  opened : Nat
  talks : Nat → Talk

namespace Network

def start : Network := ⟨0, fun _ => ⟨[], []⟩⟩

/-- The other side receives a message and sends something for it. -/
def hear (net : Network) (c : Nat) (message answer : Bytes) : Network :=
  { net with
    talks := Function.update net.talks c
      ⟨(net.talks c).heard ++ [(message, answer)], (net.talks c).unread ++ answer⟩ }

/-- Some of what the other side sent is read. -/
def leave (net : Network) (c : Nat) (unread : Bytes) : Network :=
  { net with talks := Function.update net.talks c ⟨(net.talks c).heard, unread⟩ }

/-- The transport over a network, for one call with its fate. -/
def transport : Transport (Fate × Network) where
  dial _ := fun (fate, net) =>
    match fate.opening with
    | .error fault => (.error fault, fate, net)
    | .ok () => (.ok net.opened, fate, { net with opened := net.opened + 1 })
  send c bytes := Action.ofStep fun (fate, net) =>
    (fate.sending.mapError .io, fate, if fate.received then net.hear c bytes fate.answer else net)
  take c n := Action.ofStep fun (fate, net) =>
    let unread := (net.talks c).unread
    if Bytes.atLeast n (unread.take fate.arriving) then
      (.ok (unread.take n), fate.spend n, net.leave c (unread.drop n))
    else (.error (.io fate.ending), fate.spend fate.arriving, net.leave c (unread.drop fate.arriving))

variable {fate fate' : Fate} {net net' : Network} {c n : Nat} {bs rest message answer : Bytes} {f : Frame}
  {request : Request} {reply : Reply}

@[simp] theorem talks_hear : (net.hear c message answer).talks c =
    ⟨(net.talks c).heard ++ [(message, answer)], (net.talks c).unread ++ answer⟩ := by
  simp [hear]

@[simp] theorem talks_leave : (net.leave c rest).talks c = ⟨(net.talks c).heard, rest⟩ := by
  simp [leave]

/-- At most one connection differs. -/
structure Apart (c : Nat) (net net' : Network) : Prop where
  opened : net'.opened = net.opened
  others : ∀ c', c' ≠ c → net'.talks c' = net.talks c'

/-- Something was read off a connection, and nothing else happened. -/
structure Read (c : Nat) (net net' : Network) : Prop extends Apart c net net' where
  heard : (net'.talks c).heard = (net.talks c).heard

theorem Apart.hear : Apart c net (net.hear c message answer) :=
  ⟨rfl, fun c' other => by simp [Network.hear, other]⟩

theorem Apart.trans {net₁ : Network} (first : Apart c net net₁) (second : Apart c net₁ net') : Apart c net net' :=
  ⟨second.opened.trans first.opened, fun c' other => (second.others c' other).trans (first.others c' other)⟩

theorem Read.refl (c : Nat) (net : Network) : Read c net net := ⟨⟨rfl, fun _ _ => rfl⟩, rfl⟩

instance : Std.Refl fun s s' : Fate × Network => Read c s.2 s'.2 := ⟨fun s => .refl c s.2⟩

instance : IsTrans (Fate × Network) fun s s' => Read c s.2 s'.2 :=
  ⟨fun _ _ _ first second => ⟨first.toApart.trans second.toApart, second.heard.trans first.heard⟩⟩

/-! ## Reading -/

theorem read_leave : Read c net (net.leave c rest) :=
  ⟨⟨rfl, fun c' other => by simp [Network.leave, other]⟩, by rw [talks_leave]⟩

theorem obeys_take (n : Nat) : Action.Obeys (fun s s' => Read c s.2 s'.2) (transport.take c n) := by
  rintro ⟨fate, net⟩
  simp only [transport, Action.perform_ofStep]
  split
  · exact read_leave
  · exact read_leave

theorem obeys_receive : Action.Obeys (fun s s' => Read c s.2 s'.2) (Frame.receive (transport.take c)) :=
  (obeys_take _).bind fun _ => (Action.Obeys.ofExcept _).bind fun _ => (obeys_take _).bind fun _ =>
    Action.Obeys.ofExcept (.ok _)

/-- What is taken is what a stream of the unread bytes gives. -/
theorem perform_take_eq_ok (took : (transport.take c n).perform (fate, net) = (.ok bs, fate', net')) :
    (Wire.take n).perform (net.talks c).unread = (.ok bs, (net'.talks c).unread) := by
  simp only [transport, Action.perform_ofStep] at took
  split at took
  · rename_i enough
    cases took
    rw [Bytes.atLeast_iff, List.length_take] at enough
    rw [perform_take_of_le (by omega), talks_leave]
  · cases took

/-- What has arrived can be taken. -/
theorem perform_take (unread : (net.talks c).unread = bs ++ rest) (arrived : bs.length ≤ fate.arriving) :
    (transport.take c bs.length).perform (fate, net) = (.ok bs, fate.spend bs.length, net.leave c rest) := by
  have enough : Bytes.atLeast bs.length ((bs ++ rest).take fate.arriving) = true := by
    rw [Bytes.atLeast_iff, List.length_take, List.length_append]
    omega
  simp only [transport, Action.perform_ofStep, unread, enough, if_true, List.take_left, List.drop_left]

/-- A frame that is read is read off the unread bytes. -/
theorem perform_receive_eq_ok (read : (Frame.receive (transport.take c)).perform (fate, net) = (.ok f, fate', net')) :
    f.Fits ∧ (net.talks c).unread = f.encode ++ (net'.talks c).unread := by
  simp only [Frame.receive, Action.perform_bind_eq_ok] at read
  obtain ⟨header, ⟨fate₁, net₁⟩, tookHeader, _, _, checked, payload, ⟨fate₂, net₂⟩, tookPayload, done⟩ := read
  obtain ⟨fits, same⟩ := Prod.mk.inj checked
  cases same
  cases done
  apply Frame.perform_receive_eq_ok_iff.mp
  have checked : (Action.ofExcept ((Frame.checkLength (Frame.announced header)).mapError Flaw.toError)).perform
      (net₁.talks c).unread = (.ok (), (net₁.talks c).unread) := by rw [fits, Action.perform_ofExcept]
  rw [Frame.receive, Action.perform_bind_ok (perform_take_eq_ok tookHeader), Action.perform_bind_ok checked,
    Action.perform_bind_ok (perform_take_eq_ok tookPayload)]
  rfl

/-- A frame that has arrived is read. -/
theorem perform_receive (fits : f.Fits) (unread : (net.talks c).unread = f.encode ++ rest)
    (arrived : f.encode.length ≤ fate.arriving) :
    ∃ s, (Frame.receive (transport.take c)).perform (fate, net) = (.ok f, s) := by
  have parts : f.encode.length = Frame.headerSize + f.payload.length := f.length_encode
  have header : (transport.take c f.header.length).perform (fate, net) =
      (.ok f.header, fate.spend f.header.length, net.leave c (f.payload ++ rest)) :=
    perform_take (by rw [unread, Frame.encode_eq, List.append_assoc]) (by rw [f.length_header]; omega)
  rw [f.length_header] at header
  have checked : (Frame.checkLength f.payload.length).mapError Flaw.toError = .ok () := by
    rw [Frame.checkLength, if_neg (Nat.not_lt.mpr fits)]
    rfl
  have arrived' : f.payload.length ≤ (fate.spend Frame.headerSize).arriving := by
    simp only [Fate.spend]
    omega
  have body : (transport.take c f.payload.length).perform (fate.spend Frame.headerSize, net.leave c (f.payload ++ rest)) =
      (.ok f.payload, (fate.spend Frame.headerSize).spend f.payload.length,
        (net.leave c (f.payload ++ rest)).leave c rest) := perform_take (by rw [talks_leave]) arrived'
  refine ⟨((fate.spend Frame.headerSize).spend f.payload.length, (net.leave c (f.payload ++ rest)).leave c rest), ?_⟩
  rw [Frame.receive, Action.perform_bind_ok header, Frame.announced_header fits.lt, checked,
    Action.perform_bind_ok (Action.perform_ofExcept _ _), Action.perform_bind_ok body]
  rfl

/-! ## One exchange -/

theorem perform_write (fits : request.frame.Fits) (s : Fate × Network) :
    (Action.ofExcept (check request.frame.write)).perform s = (.ok request.encode, s) := by
  rw [Frame.check_write fits]
  rfl

theorem perform_send (c : Nat) (bs : Bytes) : (transport.send c bs).perform (fate, net) =
    (fate.sending.mapError .io, fate, if fate.received then net.hear c bs fate.answer else net) := rfl

/-- In the course of an exchange the request is received or not, and then something is read. -/
theorem exchange_cases {answer : Except Error Reply} {s : Fate × Network}
    (done : (Line.exchange transport c request).perform (fate, net) = (answer, s)) :
    Read c net s.2 ∨ Read c (net.hear c request.encode fate.answer) s.2 := by
  by_cases fits : request.frame.Fits
  · rw [Line.exchange, Action.perform_bind_ok (perform_write fits _), Action.perform_bind, perform_send] at done
    have behind : Read c (if fate.received then net.hear c request.encode fate.answer else net) s.2 := by
      cases sending : fate.sending with
      | error fault =>
        rw [sending] at done
        cases done
        exact .refl c _
      | ok _ =>
        rw [sending] at done
        have receives : Action.Obeys (fun s s' => Read c s.2 s'.2) (Reply.receive (transport.take c)) :=
          obeys_receive.bind fun _ => Action.Obeys.ofExcept _
        have read := receives (fate, if fate.received then net.hear c request.encode fate.answer else net)
        simp only [Except.mapError] at done
        rwa [done] at read
    cases got : fate.received with
    | false =>
      rw [got] at behind
      exact .inl behind
    | true =>
      rw [got] at behind
      exact .inr behind
  · have refused : (Action.ofExcept (check request.frame.write)).perform (fate, net) =
        (.error (.protocol (Flaw.tooLarge request.frame.payload.length).text), fate, net) := by
      rw [Frame.check_write_error (Nat.lt_of_not_le fits)]
      rfl
    rw [Line.exchange, Action.perform_bind_error refused] at done
    cases done
    exact .inl (.refl c net)

theorem apart_exchange {answer : Except Error Reply} {s : Fate × Network}
    (done : (Line.exchange transport c request).perform (fate, net) = (answer, s)) : Apart c net s.2 := by
  rcases exchange_cases done with read | read
  · exact read.toApart
  · exact Apart.hear.trans read.toApart

/-- Where nothing was unread, a reply that is read is all that was sent for the request. -/
theorem perform_exchange_eq_ok (quiet : (net.talks c).unread = [])
    (done : (Line.exchange transport c request).perform (fate, net) = (.ok reply, fate', net')) :
    request.frame.Fits ∧ reply.frame.Fits ∧ fate.answer = reply.encode ∧
      net'.talks c = ⟨(net.talks c).heard ++ [(request.encode, reply.encode)], []⟩ := by
  simp only [Line.exchange, Reply.receive, Action.perform_bind_eq_ok] at done
  obtain ⟨bytes, s, written, _, ⟨fate₁, net₁⟩, sent, f, ⟨fate₂, net₂⟩, received, parsed⟩ := done
  by_cases fits : request.frame.Fits
  · rw [Frame.check_write fits] at written
    cases written
    obtain ⟨-, same⟩ := Prod.mk.inj sent
    cases same
    obtain ⟨spelled, same⟩ := Prod.mk.inj parsed
    cases same
    obtain rfl : f = reply.frame := Reply.ofFrame_eq_ok_iff.mp (check_eq_ok_iff.mp spelled)
    obtain ⟨fits', unread⟩ := perform_receive_eq_ok received
    cases got : fate.received with
    | false =>
      simp only [got, Bool.false_eq_true, if_false, quiet] at unread
      cases unread
    | true =>
      simp only [got, if_true, talks_hear, quiet, List.nil_append] at received unread
      have read := obeys_receive (c := c) (fate, net.hear c request.frame.encode fate.answer)
      rw [received] at read
      have heard := read.heard
      rw [talks_hear] at heard
      have rest := Fate.rest_eq_nil fits' unread
      rw [rest, List.append_nil] at unread
      rw [unread] at heard
      exact ⟨fits, fits', unread, Talk.ext heard rest⟩
  · rw [Frame.check_write_error (Nat.lt_of_not_le fits)] at written
    cases written

/-- A reply that arrives in time is read. -/
theorem perform_exchange (quiet : (net.talks c).unread = []) (fits : request.frame.Fits) (fits' : reply.frame.Fits)
    (sending : fate.sending = .ok ()) (received : fate.received = true) (sends : fate.answer = reply.encode)
    (arrived : reply.encode.length ≤ fate.arriving) :
    ∃ s, (Line.exchange transport c request).perform (fate, net) = (.ok reply, s) := by
  have sent : (transport.send c request.encode).perform (fate, net) =
      (.ok (), fate, net.hear c request.encode reply.encode) := by
    rw [perform_send, sending, received, sends]
    rfl
  have unread : ((net.hear c request.encode reply.encode).talks c).unread = reply.frame.encode ++ [] := by
    rw [talks_hear, quiet, List.append_nil]
    rfl
  obtain ⟨s, read⟩ := perform_receive fits' unread arrived
  refine ⟨s, ?_⟩
  rw [Line.exchange, Action.perform_bind_ok (perform_write fits _), Action.perform_bind_ok sent, Reply.receive,
    Action.perform_bind_ok read, Reply.ofFrame_frame]
  rfl

end Network

/-! ## A serving connection -/

section
variable {σ : Type}

/-- What a server replies to a request: what its handler gives, or that it is too long to be sent,
    or that the request names no command. -/
inductive Connection.Replied (commands : Commands σ) (s : σ) (request : Request) : Reply → Prop
  | dispatched {reply sent : Reply} {s' : σ} (dispatched : Dispatched commands s request reply s')
      (sends : Sent reply sent) : Replied commands s request sent
  | unnamed (none : request.args = []) : Replied commands s request (.error Flaw.noArguments.toError.message)

variable {commands : Commands σ} {request : Request}

theorem Connection.serve_one (sound : request.Sound) (s : σ) :
    serve commands request.encode s = ([sendable (commands.dispatch request s).1], (commands.dispatch request s).2) := by
  have nothing : serve commands [] = pure [] := serve_of_ends (.cut (.inl (by decide)))
  have alone : serve commands (request.encode ++ []) = _ := serve_encode sound []
  rw [List.append_nil, nothing] at alone
  rw [alone]
  rfl

/-- A request is answered with one reply. -/
theorem Connection.exists_replied (sized : Sized commands) (fits : request.frame.Fits) (s : σ) :
    ∃ reply, Replied commands s request reply ∧ reply.frame.Fits ∧
      output (serve commands request.encode s).1 = reply.encode := by
  by_cases named : request.args = []
  · have refused : Request.ofFrame request.frame = .error .noArguments := by
      have garbled : Request.Garbled request.frame .noArguments := by
        rw [Request.frame, named]
        exact .noArguments []
      exact garbled.ofFrame
    have ends : Ends request.encode [.error Flaw.noArguments.toError.message] := by
      have ends := Ends.undecodable fits refused []
      rwa [List.append_nil] at ends
    refine ⟨_, .unnamed named, ends.fits _ List.mem_cons_self, ?_⟩
    rw [serve_of_ends ends]
    exact List.append_nil _
  · have sound : request.Sound := ⟨named, fits⟩
    have dispatched : Dispatched commands s request _ _ := dispatched_dispatch sound s
    have sends := sent_sendable (commands.dispatch request s).1
    refine ⟨_, .dispatched dispatched sends, sends.fits (dispatched.lt sized sound), ?_⟩
    rw [serve_one sound]
    exact List.append_nil _

/-- What is sent for a request, as far as anything is sent, is what a serving connection sends
    whose handlers are in some state. -/
def Fate.Serves (fate : Fate) (commands : Commands σ) (s : σ) (request : Request) : Prop :=
  fate.answer <+: Connection.output (Connection.serve commands request.encode s).1

end

/-! ## Calls on a line -/

namespace Line

variable {here : Line × Network} {line : Line} {net net₁ net' : Network} {fate : Fate} {request : Request} {c : Nat}

/-- A call with its fate. -/
def attempt (fate : Fate) (request : Request) (here : Line × Network) : Except Error Reply × Line × Network :=
  let (answer, line, _, net) := (call Network.transport request).perform (here.1, fate, here.2)
  (answer, line, net)

/-- What is done with a line. -/
inductive Event where
  | call (request : Request) (fate : Fate)
  | disconnect

def step (here : Line × Network) : Event → Line × Network
  | .call request fate => (attempt fate request here).2
  | .disconnect => (here.1.disconnect, here.2)

def run (here : Line × Network) (events : List Event) : Line × Network :=
  events.foldl step here

/-- The connection that a call uses, and the network in which it is open: the one that the line
    has, or else a new one. -/
inductive Reaches (line : Line) (net : Network) : Nat → Network → Prop
  | kept {c : Nat} (own : line.connection = some c) : Reaches line net c net
  | opened (none : line.connection = none) : Reaches line net net.opened { net with opened := net.opened + 1 }

/-- What comes of a call: no connection is opened, or the exchange on it fails or gives a reply. -/
inductive Attempted (fate : Fate) (request : Request) (here : Line × Network) : Except Error Reply → Line × Network → Prop
  | unopened (e : Error) (none : here.1.connection = none)
      (shut : Address.check here.1.address ≠ .ok () ∨ fate.opening ≠ .ok ()) : Attempted fate request here (.error e) here
  | failed {c : Nat} {net : Network} {e : Error} {s : Fate × Network} (reaches : Reaches here.1 here.2 c net)
      (failed : (exchange Network.transport c request).perform (fate, net) = (.error e, s)) :
      Attempted fate request here (.error e) (here.1.disconnect, s.2)
  | replied {c : Nat} {net : Network} {reply : Reply} {s : Fate × Network} (reaches : Reaches here.1 here.2 c net)
      (replied : (exchange Network.transport c request).perform (fate, net) = (.ok reply, s)) :
      Attempted fate request here (.ok reply) ({ here.1 with connection := some c }, s.2)

/-- A line reaches a connection, or it has none and none is opened. -/
theorem perform_reach_cases (fate : Fate) (line : Line) (net : Network) :
    (∃ c net', Reaches line net c net' ∧ (reach Network.transport line).perform (fate, net) = (.ok c, fate, net')) ∨
    ∃ e, (reach Network.transport line).perform (fate, net) = (.error e, fate, net) ∧ line.connection = none ∧
      (Address.check line.address ≠ .ok () ∨ fate.opening ≠ .ok ()) := by
  cases own : line.connection with
  | some c => exact .inl ⟨c, net, .kept own, by rw [reach, own]; rfl⟩
  | none =>
    cases checked : Address.check line.address with
    | error flaw =>
      refine .inr ⟨.network ("Bad address " ++ line.address ++ ": " ++ flaw.text), ?_, rfl, .inl (by simp)⟩
      rw [reach, own]
      simp only [dial, checked]
      rfl
    | ok _ =>
      cases opening : fate.opening with
      | error fault =>
        refine .inr ⟨.network ("Connect to " ++ line.address ++ " failed: " ++ fault.text), ?_, rfl, .inr (by simp)⟩
        rw [reach, own]
        simp only [dial, checked, Network.transport, opening, Action.perform_ofStep]
      | ok _ =>
        refine .inl ⟨_, _, .opened own, ?_⟩
        rw [reach, own]
        simp only [dial, checked, Network.transport, opening, Action.perform_ofStep]

theorem attempted (fate : Fate) (request : Request) (here : Line × Network) :
    Attempted fate request here (attempt fate request here).1 (attempt fate request here).2 := by
  obtain ⟨line, net⟩ := here
  rcases perform_reach_cases fate line net with ⟨c, net', reaches, reached⟩ | ⟨e, stopped, none, shut⟩
  · cases done : (exchange Network.transport c request).perform (fate, net') with
    | mk answer s =>
      cases answer with
      | error e =>
        have called : attempt fate request (line, net) = (.error e, line.disconnect, s.2) := by
          simp only [attempt, call, Action.perform_ofStep, reached, done]
        rw [called]
        exact .failed reaches done
      | ok reply =>
        have called : attempt fate request (line, net) = (.ok reply, { line with connection := some c }, s.2) := by
          simp only [attempt, call, Action.perform_ofStep, reached, done]
        rw [called]
        exact .replied reaches done
  · have called : attempt fate request (line, net) = (.error e, line, net) := by
      simp only [attempt, call, Action.perform_ofStep, stopped]
    rw [called]
    exact .unopened e none shut

/-- A call uses no connection but the one that it reaches. -/
theorem Reaches.elsewhere (reaches : Reaches line net c net₁) (apart : Network.Apart c net₁ net') (c' : Nat)
    (before : c' < net.opened) (other : line.connection ≠ some c') : net'.talks c' = net.talks c' := by
  cases reaches with
  | kept own => exact apart.others c' fun same => other (same ▸ own)
  | opened none => exact apart.others c' (Nat.ne_of_lt before)

/-! ## Nothing is left unread -/

/-- Nothing is unread on the connection of a line, and nothing went over those that are not open yet. -/
structure Calm (here : Line × Network) : Prop where
  quiet : ∀ c, here.1.connection = some c → c < here.2.opened ∧ (here.2.talks c).unread = []
  fresh : ∀ c, here.2.opened ≤ c → here.2.talks c = ⟨[], []⟩

theorem Calm.idle (address : String) : Calm (Line.idle address, .start) where
  quiet c own := by cases own
  fresh _ _ := rfl

/-- What a line reaches is quiet, and it differs from what was there in the count of connections only. -/
theorem Calm.reaches (calm : Calm here) (reaches : Reaches here.1 here.2 c net) :
    net.talks = here.2.talks ∧ (net.talks c).unread = [] ∧ c < net.opened ∧ here.2.opened ≤ net.opened := by
  cases reaches with
  | kept own => exact ⟨rfl, (calm.quiet c own).2, (calm.quiet c own).1, Nat.le_refl _⟩
  | opened none =>
    refine ⟨rfl, ?_, Nat.lt_succ_self _, Nat.le_succ _⟩
    rw [calm.fresh _ (Nat.le_refl _)]

theorem Calm.unopened (calm : Calm here) (reaches : Reaches here.1 here.2 c net) (apart : Network.Apart c net net')
    (c' : Nat) (later : net'.opened ≤ c') : net'.talks c' = ⟨[], []⟩ := by
  obtain ⟨same, -, used, more⟩ := calm.reaches reaches
  rw [apart.opened] at later
  rw [apart.others c' (by omega), same]
  exact calm.fresh c' (by omega)

/-- A call leaves nothing unread on a connection that it keeps. -/
theorem Attempted.calm {answer : Except Error Reply} {after : Line × Network}
    (attempted : Attempted fate request here answer after) (calm : Calm here) : Calm after := by
  cases attempted with
  | unopened e none shut => exact calm
  | failed reaches failed =>
    exact ⟨fun c own => (by cases own), calm.unopened reaches (Network.apart_exchange failed)⟩
  | replied reaches replied =>
    have apart := Network.apart_exchange replied
    obtain ⟨-, unread, used, -⟩ := calm.reaches reaches
    obtain ⟨-, -, -, talk⟩ := Network.perform_exchange_eq_ok unread replied
    refine ⟨fun c' own => ?_, calm.unopened reaches apart⟩
    cases own
    rw [apart.opened, talk]
    exact ⟨used, rfl⟩

theorem Calm.step (calm : Calm here) (event : Event) : Calm (step here event) := by
  cases event with
  | call request fate => exact (attempted fate request here).calm calm
  | disconnect => exact ⟨fun c own => (by cases own), calm.fresh⟩

theorem Calm.run (calm : Calm here) (events : List Event) : Calm (run here events) := by
  induction events generalizing here with
  | nil => exact calm
  | cons event events ih => exact ih (calm.step event)

/-! ## The replies of a run -/

/-- A reply that a call returned, with its request and the connection. -/
structure Gain where
  connection : Nat
  request : Request
  reply : Reply

/-- What a call gains by what it returns and leaves. -/
def gained (request : Request) : Except Error Reply → Line × Network → List Gain
  | .ok reply, (⟨_, some c⟩, _) => [⟨c, request, reply⟩]
  | _, _ => []

def gains (here : Line × Network) : Event → List Gain
  | .call request fate => gained request (attempt fate request here).1 (attempt fate request here).2
  | .disconnect => []

/-- All that is gained in a run. -/
def allGains (here : Line × Network) : List Event → List Gain
  | [] => []
  | event :: events => gains here event ++ allGains (step here event) events

/-- The messages and answers of what was gained on a connection. -/
def pairsOn (c : Nat) (gains : List Gain) : List (Bytes × Bytes) :=
  (gains.filter fun gain => gain.connection = c).map fun gain => (gain.request.encode, gain.reply.encode)

variable {before : List Gain}

theorem pairsOn_append (c : Nat) (before after : List Gain) :
    pairsOn c (before ++ after) = pairsOn c before ++ pairsOn c after := by
  rw [pairsOn, List.filter_append, List.map_append, pairsOn, pairsOn]

/-- On each connection the other side received what was gained on it, in order and with these
    answers, and at most one request more, whose call failed; none more on the connection of the line. -/
structure Tallied (here : Line × Network) (gains : List Gain) : Prop where
  own : ∀ c, here.1.connection = some c → (here.2.talks c).heard = pairsOn c gains
  all : ∀ c, ∃ last, (here.2.talks c).heard = pairsOn c gains ++ last ∧ last.length ≤ 1

theorem Tallied.idle (address : String) : Tallied (Line.idle address, .start) [] where
  own c own := by cases own
  all _ := ⟨[], rfl, Nat.zero_le 1⟩

/-- What a line reaches has no request more. -/
theorem Tallied.heard (tallied : Tallied here before) (calm : Calm here) (reaches : Reaches here.1 here.2 c net) :
    (net.talks c).heard = pairsOn c before := by
  cases reaches with
  | kept own => exact tallied.own c own
  | opened none =>
    obtain ⟨last, heard, -⟩ := tallied.all here.2.opened
    rw [calm.fresh _ (Nat.le_refl _)] at heard
    rw [(List.append_eq_nil_iff.mp heard.symm).1]
    exact congrArg Talk.heard (calm.fresh _ (Nat.le_refl _))

theorem Attempted.tallied {answer : Except Error Reply} {after : Line × Network}
    (attempted : Attempted fate request here answer after) (calm : Calm here) (tallied : Tallied here before) :
    Tallied after (before ++ gained request answer after) := by
  cases attempted with
  | unopened e none shut =>
    show Tallied here (before ++ [])
    rwa [List.append_nil]
  | @failed c net e s reaches failed =>
    show Tallied (here.1.disconnect, s.2) (before ++ [])
    rw [List.append_nil]
    refine ⟨fun c' own => (by cases own), fun c' => ?_⟩
    by_cases same : c' = c
    · subst same
      rw [← tallied.heard calm reaches]
      rcases Network.exchange_cases failed with read | read
      · exact ⟨[], by rw [read.heard, List.append_nil], Nat.zero_le 1⟩
      · exact ⟨[(request.encode, fate.answer)], by rw [read.heard, Network.talks_hear], Nat.le_refl 1⟩
    · rw [(Network.apart_exchange failed).others c' same, (calm.reaches reaches).1]
      exact tallied.all c'
  | @replied c net reply s reaches replied =>
    show Tallied ({ here.1 with connection := some c }, s.2) (before ++ [⟨c, request, reply⟩])
    have heard : (s.2.talks c).heard = pairsOn c (before ++ [⟨c, request, reply⟩]) := by
      obtain ⟨-, -, -, talk⟩ := Network.perform_exchange_eq_ok (calm.reaches reaches).2.1 replied
      rw [talk, pairsOn_append, tallied.heard calm reaches]
      simp [pairsOn]
    refine ⟨fun c' own => ?_, fun c' => ?_⟩
    · cases own
      exact heard
    · by_cases same : c' = c
      · subst same
        exact ⟨[], by rw [heard, List.append_nil], Nat.zero_le 1⟩
      · have none : pairsOn c' [⟨c, request, reply⟩] = [] := by simp [pairsOn, Ne.symm same]
        rw [(Network.apart_exchange replied).others c' same, (calm.reaches reaches).1, pairsOn_append, none,
          List.append_nil]
        exact tallied.all c'

theorem Tallied.step (tallied : Tallied here before) (calm : Calm here) (event : Event) :
    Tallied (step here event) (before ++ gains here event) := by
  cases event with
  | call request fate => exact (attempted fate request here).tallied calm tallied
  | disconnect =>
    show Tallied (here.1.disconnect, here.2) (before ++ [])
    rw [List.append_nil]
    exact ⟨fun c own => (by cases own), tallied.all⟩

theorem Tallied.run (tallied : Tallied here before) (calm : Calm here) (events : List Event) :
    Tallied (run here events) (before ++ allGains here events) := by
  induction events generalizing here before with
  | nil =>
    show Tallied here (before ++ [])
    rwa [List.append_nil]
  | cons event events ih =>
    have later := ih (tallied.step calm event) (calm.step event)
    rwa [List.append_assoc] at later

/-! ## What a call returns -/

/-- What a call returns and leaves, after whatever became of the calls before. -/
structure Paired (fate : Fate) (request : Request) (here : Line × Network) (answer : Except Error Reply)
    (after : Line × Network) : Prop where
  /-- A reply is what was sent for this request, and nothing else was sent for it: on the connection
      of the line, or on a new one on which nothing was sent before. Also an error reply leaves the
      connection to the line. -/
  own : ∀ reply, answer = .ok reply → ∃ c,
    (here.1.connection = some c ∨ here.1.connection = none ∧ c = here.2.opened ∧ (here.2.talks c).heard = []) ∧
    (here.2.talks c).unread = [] ∧ after.1.connection = some c ∧
    after.2.talks c = ⟨(here.2.talks c).heard ++ [(request.encode, reply.encode)], []⟩
  /-- A failure leaves no connection to the line. -/
  failed : ∀ e, answer = .error e → after.1.connection = none
  /-- The connections that were given up are never used again. -/
  elsewhere : ∀ c < here.2.opened, here.1.connection ≠ some c → after.2.talks c = here.2.talks c
  /-- A reply that arrives in time is returned, also one that is an error reply. -/
  timely : ∀ reply : Reply, request.frame.Fits → reply.frame.Fits →
    (here.1.connection = none → Address.check here.1.address = .ok () ∧ fate.opening = .ok ()) →
    fate.sending = .ok () → fate.received = true → fate.answer = reply.encode →
    reply.encode.length ≤ fate.arriving → answer = .ok reply
  /-- A server's reply is its reply to this request. -/
  served : ∀ {σ : Type} (commands : Commands σ) (s : σ), Connection.Sized commands → fate.Serves commands s request →
    ∀ reply, answer = .ok reply → Connection.Replied commands s request reply

theorem Attempted.paired {answer : Except Error Reply} {after : Line × Network}
    (attempted : Attempted fate request here answer after) (calm : Calm here) :
    Paired fate request here answer after := by
  cases attempted with
  | unopened e none shut =>
    refine ⟨fun reply given => (by cases given), fun _ _ => none, fun _ _ _ => rfl, ?_,
      fun _ _ _ _ reply given => (by cases given)⟩
    intro reply _ _ opens
    obtain ⟨address, opening⟩ := opens none
    exact absurd shut (by simp [address, opening])
  | failed reaches failed =>
    obtain ⟨-, unread, -, -⟩ := calm.reaches reaches
    refine ⟨fun reply given => (by cases given), fun _ _ => rfl, reaches.elsewhere (Network.apart_exchange failed), ?_,
      fun _ _ _ _ reply given => (by cases given)⟩
    intro reply fits fits' _ sending received sends arrived
    obtain ⟨s', done⟩ := Network.perform_exchange unread fits fits' sending received sends arrived
    rw [failed] at done
    cases done
  | @replied c net reply s reaches replied =>
    obtain ⟨same, unread, -, -⟩ := calm.reaches reaches
    obtain ⟨fits, fits', sends, talk⟩ := Network.perform_exchange_eq_ok unread replied
    refine ⟨?_, fun e given => (by cases given), reaches.elsewhere (Network.apart_exchange replied), ?_, ?_⟩
    · intro reply' given
      cases given
      rw [same] at unread talk
      refine ⟨c, ?_, unread, rfl, talk⟩
      cases reaches with
      | kept own => exact .inl own
      | opened none => exact .inr ⟨none, rfl, by rw [calm.fresh _ (Nat.le_refl _)]⟩
    · intro reply' _ fits'' _ _ _ sends' _
      rw [Reply.encode_injective (sends.symm.trans sends')]
    · intro σ commands s sized serves reply' given
      cases given
      obtain ⟨reply', answers, fits'', output⟩ := Connection.exists_replied sized fits s
      rw [Fate.Serves, sends, output] at serves
      rw [Reply.eq_of_prefix fits' fits'' serves]
      exact answers

/-- Whatever calls were made and connections closed on a line, and whatever became of them: on each
    connection the replies that were returned are the answers to the requests in their order, and a
    further call returns what was sent for its own request, or it fails and leaves the line without
    a connection, so that the next call opens a new one. -/
theorem calls_paired (address : String) (events : List Event) :
    Tallied (run (idle address, .start) events) (allGains (idle address, .start) events) ∧
    ∀ fate request, Paired fate request (run (idle address, .start) events)
      (attempt fate request (run (idle address, .start) events)).1
      (attempt fate request (run (idle address, .start) events)).2 :=
  ⟨(Tallied.idle address).run (Calm.idle address) events,
    fun fate request => (attempted fate request _).paired ((Calm.idle address).run events)⟩

/-- The first reply comes too late, and the second call gets its own. -/
example :
    let late : Fate := ⟨.ok (), .ok (), true, (Reply.integer 1).encode, 0, .wouldBlock, by decide⟩
    let prompt : Fate := ⟨.ok (), .ok (), true, (Reply.integer 2).encode, 13, .wouldBlock, by decide⟩
    (attempt prompt Connection.ping (run (idle "a:1", .start) [.call Connection.ping late])).1 = .ok (.integer 2) := by
  rfl

end Line
end Shiplog
