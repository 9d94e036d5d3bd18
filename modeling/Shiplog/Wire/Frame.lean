import Shiplog.Action
import Shiplog.Bytes
import Shiplog.Hex

/-!
Frames, the form of every message on a connection: a byte for the kind, the
payload's length in four bytes, most significant first, and the payload. Writers
and readers refuse a payload longer than `Frame.maxPayload` alike.
-/
namespace Shiplog

namespace Wire

/-- What is wrong with a message. -/
inductive Flaw where
  | shortHeader (length : Nat)
  | tooLarge (length : Nat)
  | shortPayload (expected length : Nat)
  | notRequest (kind : UInt8)
  /-- A request ends before the number of its arguments. -/
  | noCount
  /-- A request has no arguments, so it names no command. -/
  | noArguments
  /-- A request ends before the length of an argument. -/
  | noLength
  /-- A request ends inside an argument. -/
  | shortArgument (index expected length : Nat)
  /-- A request goes on after its last argument. -/
  | trailing (length : Nat)
  /-- The text of a reply is not UTF-8. -/
  | notText
  /-- A null reply carries bytes. -/
  | fullNull (length : Nat)
  /-- An integer reply is not eight bytes long. -/
  | integerWidth (length : Nat)
  | notReply (kind : UInt8)
  deriving DecidableEq

end Wire

/-- A message: its kind and its payload. -/
structure Frame where
  kind : UInt8
  payload : Bytes
  deriving DecidableEq

namespace Frame

def headerSize : Nat := 5

/-- The longest payload. -/
def maxPayload : Nat := 512 * 1024 * 1024

end Frame

namespace Wire.Flaw

def text : Flaw → String
  | shortHeader length => s!"Incomplete header: expected {Frame.headerSize} bytes, got {length}"
  | tooLarge length => s!"Payload too large: {length} bytes (max {Frame.maxPayload})"
  | shortPayload expected length => s!"Incomplete payload: expected {expected} bytes, got {length}"
  | notRequest kind => "Unknown request kind: 0x" ++ Hex.ofBytes [kind]
  | noCount => "Missing argument count"
  | noArguments => "Empty request"
  | noLength => "Missing argument length"
  | shortArgument index expected length =>
    s!"Argument {index}: incomplete (expected {expected}, got {length})"
  | trailing length => s!"Request has {length} trailing bytes"
  | notText => "Reply text is not valid UTF-8"
  | fullNull length => s!"Null reply: unexpected payload of {length} bytes"
  | integerWidth length => s!"Integer reply: expected 8 bytes, got {length}"
  | notReply kind => "Unknown reply type: 0x" ++ Hex.ofBytes [kind]

def toError (flaw : Flaw) : Error :=
  .protocol flaw.text

end Wire.Flaw

namespace Frame

open Wire

def checkLength (length : Nat) : Except Flaw Unit :=
  if maxPayload < length then .error (.tooLarge length) else .ok ()

def encode (f : Frame) : Bytes :=
  f.kind :: Bytes.ofNatBE 4 f.payload.length ++ f.payload

/-- The bytes of a frame that is not too long to be read. -/
def write (f : Frame) : Except Flaw Bytes := do
  checkLength f.payload.length
  return f.encode

/-- The length of the payload after a header. -/
def announced (header : Bytes) : Nat :=
  Bytes.toNatBE ((header.drop 1).take 4)

/-- The frame at the front of some bytes, whatever follows. -/
def decode (bs : Bytes) : Except Flaw Frame := do
  if bs.length < headerSize then throw (.shortHeader bs.length)
  checkLength (announced bs)
  if bs.length < headerSize + announced bs then
    throw (.shortPayload (headerSize + announced bs) bs.length)
  return ⟨bs.headD 0, (bs.drop headerSize).take (announced bs)⟩

/-- Reads one frame, its header first, by an action that takes a number of bytes. -/
def receive {σ : Type} (take : Nat → Action σ Bytes) : Action σ Frame := do
  let header ← take headerSize
  Action.ofExcept ((checkLength (announced header)).mapError Flaw.toError)
  let payload ← take (announced header)
  return ⟨header.headD 0, payload⟩

end Frame

namespace Wire

/-- Takes a number of bytes off a stream. If fewer are left, they are lost and the
    stream is at its end. -/
def take (n : Nat) : Action Bytes Bytes :=
  Action.ofStep fun stream =>
    if Bytes.atLeast n stream then (.ok (stream.take n), stream.drop n) else (.error (.io .unexpectedEof), [])

/-- What was taken and what is left make up the stream. -/
theorem perform_take_eq_ok {n : Nat} {stream taken rest : Bytes}
    (took : (take n).perform stream = (.ok taken, rest)) : taken.length = n ∧ stream = taken ++ rest := by
  rw [take, Action.perform_ofStep] at took
  split at took
  · rename_i enough
    rw [Bytes.atLeast_iff] at enough
    cases took
    simp [enough]
  · cases took

def check {α : Type} (outcome : Except Flaw α) : Except Error α :=
  outcome.mapError Flaw.toError

/-- Reads messages off a stream until the first failure: the messages, the failure
    and what is left. A reader that took nothing would read no more. -/
def receiveAll {α : Type} (receive : Action Bytes α) (stream : Bytes) : List α × Option Error × Bytes :=
  match receive.perform stream with
  | (.error e, rest) => ([], some e, rest)
  | (.ok a, rest) =>
    if _shorter : rest.length < stream.length then
      let (as, stopped, left) := receiveAll receive rest
      (a :: as, stopped, left)
    else ([a], none, rest)
termination_by stream.length

end Wire

/-- A frame takes at least its header off the stream. -/
theorem Frame.length_lt_of_receive {stream rest : Bytes} {f : Frame}
    (read : (Frame.receive Wire.take).perform stream = (.ok f, rest)) :
    rest.length < stream.length := by
  simp only [Frame.receive, Action.perform_bind_eq_ok] at read
  obtain ⟨header, afterHeader, tookHeader, _, _, checked, payload, _, tookPayload, done⟩ := read
  cases done
  obtain ⟨_, rfl⟩ := Prod.mk.inj checked
  have first := Wire.perform_take_eq_ok tookHeader
  have second := Wire.perform_take_eq_ok tookPayload
  simp only [first.2, second.2, List.length_append, Frame.headerSize] at *
  omega

end Shiplog
