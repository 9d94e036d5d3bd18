import Shiplog.Error
import Shiplog.Packed

/-!
What a log records and what a standby receives: entries, entries with the
position they were logged at, snapshots, and a snapshot with the entries logged
after it; each with its packed layout.
-/
namespace Shiplog

/-- The layout of a position: term, collection and pages. -/
def Position.layout : Layout Position :=
  Layout.imap (fun p : Position => (p.term, p.collection, p.seq)) (fun f => ⟨f.1, f.2.1, f.2.2⟩)
    (.both .word (.both .word .word))

/-- One change of the store: a key with its new value, or deleted. -/
structure Entry where
  key : Bytes
  value : Bytes
  deleted : Bool
  deriving DecidableEq

namespace Entry

def put (key value : Bytes) : Entry := ⟨key, value, false⟩

def delete (key : Bytes) : Entry := ⟨key, [], true⟩

def layout : Layout Entry :=
  Layout.imap (fun e : Entry => (e.key, e.value, e.deleted)) (fun f => ⟨f.1, f.2.1, f.2.2⟩)
    (.both .bytes (.both .bytes .flag))

end Entry

/-- An entry with the position after it in the log it was first written to. -/
structure LoggedEntry where
  position : Position
  entry : Entry
  deriving DecidableEq

def LoggedEntry.layout : Layout LoggedEntry :=
  Layout.imap (fun r : LoggedEntry => (r.position, r.entry)) (fun f => ⟨f.1, f.2⟩)
    (.both Position.layout Entry.layout)

/-- The client's keys and values at one time. -/
structure Snapshot where
  /-- The position whose records are all reflected. -/
  position : Position
  /-- The term it was asked for in. -/
  term : UInt64
  /-- When it was taken, in milliseconds since 1970. -/
  createdAt : UInt64
  /-- The keys and values in ascending order of the keys. -/
  entries : List (Bytes × Bytes)
  deriving DecidableEq

def Snapshot.layout : Layout Snapshot :=
  Layout.imap (fun s : Snapshot => (s.position, s.term, s.createdAt, s.entries))
    (fun f => ⟨f.1, f.2.1, f.2.2.1, f.2.2.2⟩)
    (.both Position.layout (.both .word (.both .word (.list (.both .bytes .bytes)))))

/-- What brings a standby up to date: a snapshot and the entries logged after it. -/
structure SyncPayload where
  snapshot : Snapshot
  logs : List LoggedEntry
  deriving DecidableEq

/-- The layout of what brings a standby up to date. -/
def SyncPayload.layout : Layout SyncPayload :=
  Layout.imap (fun p : SyncPayload => (p.snapshot, p.logs)) (fun f => ⟨f.1, f.2⟩)
    (.both Snapshot.layout (.list LoggedEntry.layout))

/-- Decodes a value, a flaw being an error of serialization. -/
def Layout.parse {α : Type} (layout : Layout α) (bs : Bytes) : Except Error α :=
  (layout.decode bs).mapError fun flaw => .serialization flaw.text

end Shiplog
