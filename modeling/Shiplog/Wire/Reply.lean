import Shiplog.Text
import Shiplog.Wire.Frame

/-!
Replies: what a request is answered with, as a frame whose kind tells the form of
the reply.
-/
namespace Shiplog

open Wire

/-- The answer to a request. -/
inductive Reply where
  /-- A short text, such as `OK`. -/
  | status (text : String)
  | null
  | error (text : String)
  | integer (value : Int64)
  | bulk (data : Bytes)
  deriving DecidableEq

namespace Reply

/-- The reply to a request that was carried out. -/
def ok : Reply := .status "OK"

/-- Whether a reply says that a request was carried out. -/
def isOk : Reply → Bool
  | status text => text == "OK"
  | _ => false

def form : Reply → String
  | status _ => "Status"
  | null => "Null"
  | error _ => "Error"
  | integer _ => "Integer"
  | bulk _ => "Bulk"

/-- The kind of the frames that carry a form of reply. -/
def kind : Reply → UInt8
  | status _ => 0
  | null => 1
  | error _ => 2
  | integer _ => 3
  | bulk _ => 4

def payload : Reply → Bytes
  | status text => Text.toBytes text
  | null => []
  | error text => Text.toBytes text
  | integer value => Bytes.ofNatBE 8 value.toUInt64.toNat
  | bulk data => data

def frame (r : Reply) : Frame :=
  ⟨r.kind, r.payload⟩

def encode (r : Reply) : Bytes :=
  r.frame.encode

def readText (payload : Bytes) : Except Flaw String :=
  match Text.ofBytes? payload with
  | some text => .ok text
  | none => .error .notText

def ofFrame (f : Frame) : Except Flaw Reply :=
  if f.kind = 0 then (readText f.payload).map status
  else if f.kind = 1 then
    if f.payload = [] then .ok null else .error (.fullNull f.payload.length)
  else if f.kind = 2 then (readText f.payload).map error
  else if f.kind = 3 then
    if f.payload.length = 8 then .ok (integer (UInt64.ofNat (Bytes.toNatBE f.payload)).toInt64)
    else .error (.integerWidth f.payload.length)
  else if f.kind = 4 then .ok (bulk f.payload)
  else .error (.notReply f.kind)

/-- The reply at the front of some bytes, whatever follows. -/
def decode (bs : Bytes) : Except Flaw Reply := do
  ofFrame (← Frame.decode bs)

/-- Reads one reply by an action that takes a number of bytes. -/
def receive {σ : Type} (take : Nat → Action σ Bytes) : Action σ Reply := do
  let f ← Frame.receive take
  Action.ofExcept (check (ofFrame f))

/-- A reply written out for a report of one that was not expected. -/
def describe : Reply → String
  | status text => "Status(" ++ Text.quoted text ++ ")"
  | null => "Null"
  | error text => "Error(" ++ Text.quoted text ++ ")"
  | integer value => "Integer(" ++ toString value.toInt ++ ")"
  | bulk data => "Bulk([" ++ ", ".intercalate (data.map fun b => toString b.toNat) ++ "])"

end Reply
end Shiplog
