import Shiplog.Connection
import Shiplog.Line
import Shiplog.Node
import Shiplog.Options

/-!
The command line: a node that serves one connection, its standard input and
output. Its files are kept in memory and its peers are out of reach.
-/
namespace Shiplog

/-- A network on which no address can be reached. -/
def isolated {σ : Type} : Transport σ where
  dial _ s := (.error .networkUnreachable, s)
  send _ _ := throw (.io .networkUnreachable)
  take _ _ := throw (.io .networkUnreachable)

/-- The world of a node without a network; it holds the time. -/
def solitude : World Nat :=
  ⟨Action.reading .ok, fun _ address request => Line.callOnce isolated address request⟩

/-- The node that a command line asks for, over an empty file tree. -/
def boot (options : Options) (time : Nat) : Except Error (Node Nat) := do
  let (prepared, disk) := (DiskStore.prepare options.config.storeDir).perform .empty
  prepared
  let store := Store.disk options.config.storeDir
  let (started, engine) := (Engine.start options.config).perform ⟨disk, .fresh options.config store⟩
  started
  let node := Node.ofEngine options.config engine time
  if options.primary then
    let (promoted, node) := (Node.promote solitude).perform node
    promoted
    return node
  else return node

/-- Answers the requests on a stream one by one; more bytes are read when no
    complete request is left. -/
partial def attend (input output : IO.FS.Stream) (node : Node Nat) (waiting : Bytes) : IO Unit := do
  let answer (reply : Reply) : IO Unit := do
    output.write ⟨(Connection.sendable reply).encode.toArray⟩
    output.flush
  match Connection.arrival waiting with
  | .request request rest =>
    let time ← IO.monoMsNow
    let node := { node with outside := { node.outside with world := time } }
    let (reply, node) := ((Node.commands solitude).dispatch request).run node
    answer reply
    attend input output node rest
  | .malformed e => answer (.error e.message)
  | .ended =>
    let more ← input.read 65536
    unless more.isEmpty do attend input output node (waiting ++ more.toList)

end Shiplog

/-- Runs a node on standard input and output. -/
def main (args : List String) : IO UInt32 := do
  match Shiplog.Options.read {} args with
  | .error refusal =>
    IO.eprintln refusal.text
    return 2
  | .ok options =>
    match options.config.check, Shiplog.boot options (← IO.monoMsNow) with
    | .error e, _ =>
      IO.eprintln e.message
      return 2
    | .ok (), .error e =>
      IO.eprintln e.message
      return 1
    | .ok (), .ok node =>
      Shiplog.attend (← IO.getStdin) (← IO.getStdout) node []
      return 0
