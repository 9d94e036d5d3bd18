import Shiplog.Log.Scan
import Shiplog.Log.Tail

/-!
The log: records appended to segment files, read back in order and repaired after
a crash. Every record is in the log before what it says is applied.
-/
namespace Shiplog

/-- A log over a directory of segment files. -/
structure Log where
  tail : Tail
  /-- Whether the log has taken up its segments; before that it takes no record. -/
  mounted : Bool
  deriving DecidableEq

namespace Log

/-- A log over a directory, which is not touched yet. -/
def fresh (dir : Path) (limit : UInt64) : Log :=
  ⟨.fresh dir limit, false⟩

def dir (log : Log) : Path := log.tail.dir

/-- The position after the last page. -/
def position (log : Log) : Position := log.tail.position

variable {α : Type}

def onTail (act : Action (Mounted Tail) α) : Action (Mounted Log) α :=
  Mounted.focus (fun log : Log => log.tail) (fun log tail => { log with tail }) act

def onDisk (act : Action FileTree α) : Action (Mounted Log) α :=
  Action.focus (fun m => m.disk) (fun m disk => { m with disk }) act

/-- Takes up the newest segment, repaired, and gives the position after its last
    page. An open split record is closed by a broken end. -/
def takeUp (newest : Segment) (previous : Option Segment) : Action (Mounted Log) Unit := do
  let report ← onDisk (Repair.repair newest.path (previous.map Segment.path))
  onTail (Tail.resume newest.term newest.collection (UInt64.ofNat report.pages))
  if report.needsBrokenEnd then onTail (Tail.appendPage .brokenEnd [])

/-- Takes up the log: its directory is created if need be and its newest segment
    repaired. -/
def mount : Action (Mounted Log) Position := do
  let log ← Mounted.current
  onDisk (Edit.makeDirectories log.dir)
  let segments ← Mounted.look (Segment.list · log.dir)
  -- Only the newest segment was open, so only that one can be torn.
  match segments.reverse with
  | [] => onTail Tail.reset
  | newest :: older => takeUp newest older.head?
  Mounted.update fun log => { log with mounted := true }
  return (← Mounted.current).position

/-- Appends a record and gives the position after it. -/
def write (record : Bytes) : Action (Mounted Log) Position := do
  unless (← Mounted.current).mounted do throw (.logWrite "WAL is not initialized")
  onTail (Tail.append record)

/-- The records from the segment of a position on. -/
def scan (disk : FileTree) (log : Log) (after : Position) : Scan :=
  Scan.read disk log.dir log.position after

def startTerm (term : UInt64) : Action (Mounted Log) Position := do
  onTail (Tail.startTerm term)
  return (← Mounted.current).position

end Log
end Shiplog
