import Shiplog.Mounted
import Shiplog.Record
import Shiplog.Segment

/-!
The tail of a log, where pages are appended. A page goes to the open segment
unless it would outgrow the size limit; then, or when no segment is open, the
next segment is created first. A segment takes at least one page whatever the
limit is.
-/
namespace Shiplog

/-- The writing end of a log. -/
structure Tail where
  dir : Path
  /-- The size that no segment of more than one page exceeds. -/
  limit : UInt64
  /-- The position after the last page. -/
  position : Position
  /-- The open segment file, if one is open. -/
  handle : Option FileId
  deriving DecidableEq

namespace Tail

/-- The tail of an empty log. -/
def fresh (dir : Path) (limit : UInt64) : Tail :=
  ⟨dir, limit, .start, none⟩

/-- Closes the segment and returns to the position of an empty log. -/
def reset : Action (Mounted Tail) Unit :=
  Mounted.update fun tail => { tail with position := .start, handle := none }

def tell : Action (Mounted Tail) Position := do
  return (← Mounted.current).position

/-- Takes up a segment that holds a number of complete pages. -/
def resume (term collection pages : UInt64) : Action (Mounted Tail) Unit := do
  let tail ← Mounted.current
  let id ← Mounted.produce (·.openFile (Segment.pathIn tail.dir term collection))
  Mounted.update fun tail => { tail with position := ⟨term, collection, pages⟩, handle := some id }

/-- Closes the segment and creates the next one. If that fails, no segment is
    open and the position stays. -/
def openNext : Action (Mounted Tail) Unit := do
  -- The old segment is closed even if the next one cannot be created.
  Mounted.update fun tail => { tail with handle := none }
  let tail ← Mounted.current
  let collection := tail.position.collection + 1
  let id ← Mounted.produce (·.openFile (Segment.pathIn tail.dir tail.position.term collection))
  Mounted.update fun tail =>
    { tail with position := { tail.position with collection, seq := 0 }, handle := some id }

/-- Whether one more page would outgrow the open segment. -/
def isFull (tail : Tail) : Bool :=
  decide (0 < tail.position.seq) &&
    decide (tail.limit < (tail.position.seq + 1) * UInt64.ofNat Page.size)

/-- Makes sure that a segment with room for a page is open. -/
def makeRoom : Action (Mounted Tail) Unit := do
  let tail ← Mounted.current
  if tail.handle = none ∨ tail.isFull then openNext

def appendPage (kind : Page.Kind) (payload : Bytes) : Action (Mounted Tail) Unit := do
  match Page.encode kind payload with
  | .error oversized => throw (.logWrite oversized.text)
  | .ok page =>
    makeRoom
    match (← Mounted.current).handle with
    | none => throw (.logWrite "no active segment")
    | some id =>
      Mounted.change fun disk => .ok (disk.append id page)
      Mounted.update fun tail => { tail with position := { tail.position with seq := tail.position.seq + 1 } }

/-- Appends the pages of a record and gives the position after the last. -/
def append (record : Bytes) : Action (Mounted Tail) Position := do
  (Record.split record).forM fun (kind, piece) => appendPage kind piece
  tell

/-- Enters a new term, which must be higher: its first segment is created. The
    term is taken over even if the segment cannot be created. -/
def startTerm (term : UInt64) : Action (Mounted Tail) Unit := do
  let present := (← Mounted.current).position.term
  if term ≤ present then
    throw (.logWrite s!"new term {term.toNat} must be greater than current term {present.toNat}")
  Mounted.update fun tail => { tail with position := { tail.position with term } }
  openNext

end Tail
end Shiplog
