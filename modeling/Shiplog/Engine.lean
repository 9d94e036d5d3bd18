import Shiplog.Config
import Shiplog.Entry
import Shiplog.Log
import Shiplog.Store

/-!
The engine: a log in front of a key/value store. Every change is logged, then
applied to the store, then the store's version marker is set to the position
after it. The marker lets a restart apply exactly what a crash left unapplied. A
second marker, the replicated position, fences off entries that a primary sends
again.
-/
namespace Shiplog

/-- A log and the store that its entries are applied to. -/
structure Engine where
  log : Log
  store : Store
  deriving DecidableEq

namespace Engine

/-! ## Bookkeeping keys -/

/-- How every bookkeeping key starts: a zero byte and `tandem/`. -/
def bookkeeping : Bytes := [0, 116, 97, 110, 100, 101, 109, 47]

/-- The key of the version marker, the position after the last entry applied. -/
def versionKey : Bytes := bookkeeping ++ [118, 101, 114, 115, 105, 111, 110]

/-- The key of the replicated position, that of the last entry a primary sent. -/
def replicatedKey : Bytes := bookkeeping ++ [114, 101, 112, 108, 105, 99, 97, 116, 101, 100]

/-- Whether a key is a bookkeeping key. -/
def isReserved (key : Bytes) : Bool :=
  key.startsWith bookkeeping

/-- Refuses a bookkeeping key. -/
def checkKey (key : Bytes) : Except Error Unit :=
  if isReserved key then .error .reservedKey else .ok ()

/-! ## Parts -/

/-- An engine over a log and a store, not yet recovered. -/
def fresh (config : Config) (store : Store) : Engine :=
  ⟨.fresh config.logDir config.segmentLimit, store⟩

variable {α : Type}

def onLog (act : Action (Mounted Log) α) : Action (Mounted Engine) α :=
  Mounted.focus (fun e : Engine => e.log) (fun e log => { e with log }) act

def onStore (act : Action (Mounted Store) α) : Action (Mounted Engine) α :=
  Mounted.focus (fun e : Engine => e.store) (fun e store => { e with store }) act

def tail (e : Engine) : Position := e.log.position

def get (t : FileTree) (e : Engine) (key : Bytes) : Except Error (Option Bytes) :=
  e.store.get t key

/-- All entries of the store, bookkeeping included. -/
def entries (t : FileTree) (e : Engine) : Except Error (List (Bytes × Bytes)) :=
  e.store.entries t

/-! ## Markers -/

def marker (key : Bytes) (t : FileTree) (e : Engine) : Except Error (Option Position) := do
  match ← e.store.get t key with
  | none => return none
  | some bytes => return some (← Position.layout.parse bytes)

def setMarker (key : Bytes) (position : Position) : Action (Mounted Engine) Unit :=
  onStore (Store.put key (Position.layout.write position))

/-- The position after the last entry applied; the start of the log if none is marked. -/
def version (t : FileTree) (e : Engine) : Except Error Position := do
  return (← marker versionKey t e).getD .start

/-- The position of the last entry a primary sent, if one did. -/
def replicated (t : FileTree) (e : Engine) : Except Error (Option Position) :=
  marker replicatedKey t e

/-! ## Writing -/

def apply (entry : Entry) : Action (Mounted Engine) Unit :=
  onStore (if entry.deleted then Store.delete entry.key else Store.put entry.key entry.value)

/-- Logs an entry, applies it and marks the version. -/
def logAndApply (entry : Entry) : Action (Mounted Engine) Position := do
  let position ← onLog (Log.write (Entry.layout.write entry))
  apply entry
  setMarker versionKey position
  return position

/-- Makes one change of a client key. -/
def change (entry : Entry) : Action (Mounted Engine) Position := do
  Action.ofExcept (checkKey entry.key)
  logAndApply entry

def put (key value : Bytes) : Action (Mounted Engine) Position :=
  change (.put key value)

def delete (key : Bytes) : Action (Mounted Engine) Position :=
  change (.delete key)

def startTerm (term : UInt64) : Action (Mounted Engine) Position :=
  onLog (Log.startTerm term)

/-! ## Recovery -/

/-- Applies the record at a position unless the version covers it. -/
def applyAfter (version position : Position) (record : Bytes) : Action (Mounted Engine) Unit := do
  unless position ≤ version do
    apply (← Action.ofExcept (Entry.layout.parse record))

/-- Takes up the log, applies every record after the version marker and marks the
    end of the log. A marker past the end, left by pages that a crash lost, counts
    as the end. -/
def recover : Action (Mounted Engine) Position := do
  let tail ← onLog Log.mount
  let marked ← Mounted.reading version
  -- Pages written after the last sync may be gone; the marker then points past the end.
  let version := if tail < marked then tail else marked
  let scan ← Mounted.reading fun disk e => .ok (e.log.scan disk version)
  scan.deliver (applyAfter version)
  setMarker versionKey tail
  return tail

/-- Checks the settings and recovers the engine. What a failed recovery changed in
    the store stays changed. -/
def start (config : Config) : Action (Mounted Engine) Unit := do
  Action.ofExcept config.check
  let _ ← recover

/-! ## Sending to standbys -/

/-- The entries that records spell, as far as they are after a position. -/
def decodeAfter (after : Position) : List (Position × Bytes) → Except Error (List LoggedEntry)
  | [] => .ok []
  | (position, record) :: rest =>
    if after < position then do
      let entry ← Entry.layout.parse record
      return ⟨position, entry⟩ :: (← decodeAfter after rest)
    else decodeAfter after rest

/-- The entries logged after a position. -/
def logsAfter (after : Position) (t : FileTree) (e : Engine) : Except Error (List LoggedEntry) := do
  let scan := e.log.scan t after
  let entries ← decodeAfter after scan.records
  match scan.stopped with
  | some stopped => throw stopped
  | none => return entries

/-- The client's keys and values, under the version marker as it was before they
    were read. -/
def snapshot (term now : UInt64) (t : FileTree) (e : Engine) : Except Error Snapshot := do
  -- The marker is read first, so what is written while the entries are read lies after it.
  let position ← version t e
  let entries ← entries t e
  return ⟨position, term, now, entries.filter fun entry => !isReserved entry.1⟩

/-- What brings a standby up to date: a snapshot and the entries logged after it. -/
def syncPayload (now : UInt64) (t : FileTree) (e : Engine) : Except Error SyncPayload := do
  let snapshot ← snapshot e.tail.term now t e
  let logs ← logsAfter snapshot.position t e
  return ⟨snapshot, logs⟩

/-- What brings a standby up to date, as it is sent. -/
def payload (now : UInt64) : Action (Mounted Engine) Bytes := do
  return SyncPayload.layout.write (← Mounted.reading (syncPayload now))

/-! ## Receiving from a primary -/

/-- Logs and applies entries that a primary sent, those at or below the fence
    passed over, and gives their number. -/
def replayFrom : Option Position → List LoggedEntry → Action (Mounted Engine) Nat
  | _, [] => return 0
  | fence, record :: rest => do
    if fence.any (fun f => decide (record.position ≤ f)) then replayFrom fence rest
    else
      Action.ofExcept (checkKey record.entry.key)
      let _ ← logAndApply record.entry
      -- A crash in front of this line has the record sent and applied once more.
      setMarker replicatedKey record.position
      return (← replayFrom (some record.position) rest) + 1

/-- Logs and applies entries that a primary sent and that are new here. -/
def replay (records : List LoggedEntry) : Action (Mounted Engine) Nat := do
  replayFrom (← Mounted.reading replicated) records

/-- Searches `count` entries from index `low` on by halving: the half whose first
    key does not exceed the key is kept. -/
def bisect (entries : Array (Bytes × Bytes)) (key : Bytes) (low count : Nat) : Nat :=
  if _h : count ≤ 1 then low
  else
    let middle := low + count / 2
    let low := if key < (entries.getD middle ([], [])).1 then low else middle
    bisect entries key low (count - count / 2)
termination_by count

/-- Whether entries in ascending order hold a key. -/
def holdsKey (entries : Array (Bytes × Bytes)) (key : Bytes) : Bool :=
  match entries[bisect entries key 0 entries.size]? with
  | some entry => decide (entry.1 = key)
  | none => false

/-- The client keys that a snapshot does not hold. -/
def staleKeys (snapshot : Snapshot) (present : List (Bytes × Bytes)) : List Bytes :=
  let kept := snapshot.entries.toArray
  ((present.map Prod.fst).filter fun key => !isReserved key).filter fun key => !holdsKey kept key

def putEntries (entries : List (Bytes × Bytes)) : Action (Mounted Engine) Unit :=
  entries.forM fun (key, value) => do
    Action.ofExcept (checkKey key)
    onStore (Store.put key value)

/-- Replaces the client's keys and values by those of a snapshot. Nothing is
    logged; the version marker is set to the end of the log, so that no older
    record is ever applied over the snapshot. -/
def install (snapshot : Snapshot) : Action (Mounted Engine) Unit := do
  let present ← Mounted.reading entries
  putEntries snapshot.entries
  (staleKeys snapshot present).forM fun key => onStore (Store.delete key)
  setMarker replicatedKey snapshot.position
  setMarker versionKey (← Mounted.current).tail

/-- Installs a snapshot and the entries logged after it. -/
def installPayload (payload : Bytes) : Action (Mounted Engine) Unit := do
  let sync ← Action.ofExcept (SyncPayload.layout.parse payload)
  install sync.snapshot
  let _ ← replay sync.logs

def applyPayload (payload : Bytes) : Action (Mounted Engine) Unit := do
  let record ← Action.ofExcept (LoggedEntry.layout.parse payload)
  let _ ← replay [record]

/-- Enters the next term, in which a new primary writes. -/
def promote : Action (Mounted Engine) Unit := do
  let tail := (← Mounted.current).tail
  let _ ← startTerm (tail.term + 1)

end Engine
end Shiplog
