import Shiplog.Config

/-!
The settings of a node as words of a command line. An option is a name, most often
with a value behind it; what is not said keeps its default.
-/
namespace Shiplog

/-- What a command line asks for. -/
structure Options where
  config : Config := {}
  primary : Bool := false
  deriving DecidableEq

namespace Options

/-- Why a command line is refused. -/
inductive Refusal where
  | unknown (name : String)
  /-- The command line ends before the value of an option. -/
  | noValue (name : String)
  /-- The value of an option is no number. -/
  | badNumber (name value : String)
  /-- A member is not given as a name and an address. -/
  | badMember (value : String)
  deriving DecidableEq

/-- The text that reports why a command line is refused. -/
def Refusal.text : Refusal → String
  | unknown name => "unexpected argument '" ++ name ++ "'"
  | noValue name => "a value is required for '" ++ name ++ "'"
  | badNumber name value => "invalid number '" ++ value ++ "' for '" ++ name ++ "'"
  | badMember value => "expected name=host:port, got '" ++ value ++ "'"

/-- The name and address on the two sides of the first equals sign; neither is empty. -/
def member? (text : String) : Option (String × String) :=
  let name := text.toList.takeWhile (· != '=')
  let address := text.toList.drop (name.length + 1)
  if name = [] ∨ address = [] then none else some (String.ofList name, String.ofList address)

/-- The number that the value of an option spells, in sixty-four bits. -/
def word (name value : String) : Except Refusal UInt64 :=
  match value.toNat? with
  | some n => if n < UInt64.size then .ok (UInt64.ofNat n) else .error (.badNumber name value)
  | none => .error (.badNumber name value)

/-- The settings with one option that has a value. -/
def set (c : Config) (name value : String) : Except Refusal Config :=
  match name with
  | "--node" => .ok { c with nodeName := value }
  | "--data-dir" => .ok { c with dataDir := Path.ofString value }
  | "--listen" => .ok { c with listenAddress := value }
  | "--peer" =>
    match member? value with
    | some (member, address) => .ok { c with members := c.members.insert member address }
    | none => .error (.badMember value)
  | "--max-connections" => (word name value).map fun n => { c with maxConnections := n }
  | "--wal-segment-mb" => (word name value).map fun n => { c with segmentLimit := n * (1024 * 1024) }
  | "--peer-tick-ms" => (word name value).map fun n => { c with peerTick := n }
  | _ => .error (.unknown name)

/-- Reads the words of a command line on top of what is set already. -/
def read (options : Options) : List String → Except Refusal Options
  | [] => .ok options
  | "--primary" :: rest => read { options with primary := true } rest
  | "--sync-every-write" :: rest => read { options with config := { options.config with sync := .everyWrite } } rest
  | [name] => .error (if name.startsWith "--" then .noValue name else .unknown name)
  | name :: value :: rest => do
    read { options with config := ← set options.config name value } rest

end Options
end Shiplog
