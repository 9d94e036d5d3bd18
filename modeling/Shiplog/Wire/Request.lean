import Shiplog.Text
import Shiplog.Wire.Frame

/-!
Requests: a command's name and its arguments, as a frame whose payload is the
number of arguments and each argument with its length in front. The name is the
first argument; its case does not matter.
-/
namespace Shiplog

open Wire

/-- A request: the name of a command and its arguments, as byte strings. -/
structure Request where
  args : List Bytes
  deriving DecidableEq

namespace Request

/-- The kind of the frames that carry requests. -/
def kind : UInt8 := 0x2A

/-- The request for a command with some arguments. -/
def command (name : String) (args : List Bytes) : Request :=
  ⟨Text.toBytes name :: args⟩

/-- The name of the command in lower case. -/
def name? (r : Request) : Option String :=
  r.args.head?.map fun name => (Text.lossy name).toLower

/-- A number in the four bytes of a count or length. -/
def encodeNat (n : Nat) : Bytes :=
  Bytes.ofNatBE 4 n

def encodeArg (arg : Bytes) : Bytes :=
  encodeNat arg.length ++ arg

def frame (r : Request) : Frame :=
  ⟨kind, encodeNat r.args.length ++ r.args.flatMap encodeArg⟩

def encode (r : Request) : Bytes :=
  r.frame.encode

/-- The number in the first four bytes and the rest; a flaw if there are fewer. -/
def takeNat (flaw : Flaw) (bs : Bytes) : Except Flaw (Nat × Bytes) :=
  if Bytes.atLeast 4 bs then .ok (Bytes.toNatBE (bs.take 4), bs.drop 4) else .error flaw

/-- Reads a number of arguments, counting from an index. -/
def takeArgs : Nat → Nat → Bytes → Except Flaw (List Bytes × Bytes)
  | _, 0, bs => .ok ([], bs)
  | index, n + 1, bs => do
    let (length, rest) ← takeNat .noLength bs
    unless Bytes.atLeast length rest do throw (.shortArgument index length rest.length)
    let (args, left) ← takeArgs (index + 1) n (rest.drop length)
    return (rest.take length :: args, left)

def ofFrame (f : Frame) : Except Flaw Request := do
  if f.kind ≠ kind then throw (.notRequest f.kind)
  let (count, rest) ← takeNat .noCount f.payload
  if count = 0 then throw .noArguments
  let (args, rest) ← takeArgs 0 count rest
  if rest ≠ [] then throw (.trailing rest.length)
  return ⟨args⟩

/-- The request at the front of some bytes, whatever follows. -/
def decode (bs : Bytes) : Except Flaw Request := do
  ofFrame (← Frame.decode bs)

/-- Reads one request by an action that takes a number of bytes. -/
def receive {σ : Type} (take : Nat → Action σ Bytes) : Action σ Request := do
  let f ← Frame.receive take
  Action.ofExcept (check (ofFrame f))

end Request
end Shiplog
