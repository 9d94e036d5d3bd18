import Shiplog.Log.Repair
import Shiplog.Record

/-!
Reading records back from the segments of a log. The pages of the segments to
read form one list (`Scan.window`); one assembly runs over it (`Scan.assemble`)
and gives the records with the position after the last page of each, up to the
first page that cannot be read or is out of place.
-/
namespace Shiplog

/-- What reading a log gives: records with their positions, and the error that
    ended the reading, if one did. -/
structure Scan where
  records : List (Position × Bytes)
  stopped : Option Error
  deriving DecidableEq

namespace Scan

/-- A page of a log with the position after it, or the error in its place. -/
abbrev Item := Position × Except Error (Page.Kind × Bytes)

/-- The pages of one segment with their positions. -/
def number (term collection : UInt64) : Nat → List Segment.PageRead → List Item
  | _, [] => []
  | count, read :: rest =>
    (⟨term, collection, UInt64.ofNat (count + 1)⟩, read.mapError Segment.Stop.toError) ::
      number term collection (count + 1) rest

def items (t : FileTree) (segment : Segment) : List Item :=
  match Segment.readPages t segment.path with
  | .ok reads => number segment.term segment.collection 0 reads
  | .error fault => [(⟨segment.term, segment.collection, 0⟩, .error (.io fault))]

/-- The pages of some segments, one after the other. -/
def window (t : FileTree) (segments : List Segment) : List Item :=
  segments.flatMap (items t)

/-- The records that pages carry. -/
def assemble : Assembly → List Item → Scan
  | _, [] => ⟨[], none⟩
  | _, (_, .error e) :: _ => ⟨[], some e⟩
  | assembly, (position, .ok (kind, payload)) :: rest =>
    match assembly.push kind payload with
    | (.error breach, _) => ⟨[], some (.corruption breach.text)⟩
    | (.ok none, next) => assemble next rest
    | (.ok (some record), next) =>
      let scan := assemble next rest
      { scan with records := (position, record) :: scan.records }

/-- The part of a list from the last element on that satisfies a condition. -/
def fromLast? {α : Type} (holds : α → Bool) : List α → Option (List α)
  | [] => none
  | a :: rest =>
    match fromLast? holds rest with
    | some tail => some tail
    | none => if holds a then some (a :: rest) else none

/-- The segments to read for the records after a position. A position before the
    first segment stands for the very beginning, which only the first collection
    can supply; any other needs the segment it lies in, or an older one. -/
def segmentsAfter (segments : List Segment) (after : Position) : Except Error (List Segment) :=
  match segments with
  | [] => .ok []
  | oldest :: _ =>
    let gone : Error := .insufficientHistory after ⟨oldest.term, oldest.collection, 0⟩
    if after.collection = Position.start.collection then
      -- The first segment ever written has collection 1, in whatever term.
      if oldest.collection = 1 then .ok segments else .error gone
    else match fromLast? (fun s : Segment => Position.segmentLE ⟨s.term, s.collection, 0⟩ after) segments with
      | some kept => .ok kept
      | none => .error gone

/-- The scan that ends at once with an error. -/
def failed (e : Error) : Scan := ⟨[], some e⟩

/-- The records in a log's directory from the segment of a position on, for a log
    that ends at `tail`. -/
def read (t : FileTree) (dir : Path) (tail after : Position) : Scan :=
  if after = tail then ⟨[], none⟩
  else if tail < after then failed (.aheadOfTail after tail)
  else match Segment.list t dir with
    | .error fault => failed (.io fault)
    | .ok segments =>
      match segmentsAfter segments after with
      | .error e => failed e
      | .ok kept => assemble .empty (window t kept)

/-- Hands the records over in order until one is refused or the scan stops. -/
def deliver {σ : Type} (scan : Scan) (apply : Position → Bytes → Action σ Unit) : Action σ Unit := do
  scan.records.forM fun (position, record) => apply position record
  match scan.stopped with
  | some e => throw e
  | none => pure ()

end Scan
end Shiplog
