import Shiplog.Edit
import Shiplog.Segment

/-!
The repair of a log's newest segment after a crash. A page cut short at the end
of the file is cut off; a split record without its last page calls for a broken
end. A damaged complete page is not repaired.
-/
namespace Shiplog

namespace Segment

def Stop.toError : Stop → Error
  | .unreadable fault => .io fault
  | .damaged damage => .corruption damage.text
  | .torn number filled => .corruption (tornText number filled)

end Segment

namespace Repair

/-- The end of a segment file as found. -/
structure Finding where
  /-- The complete pages. -/
  pages : Nat
  /-- The kind of the last complete page, if there is one. -/
  lastKind : Option Page.Kind
  /-- The bytes after the last complete page. -/
  tornBytes : Nat
  deriving DecidableEq

/-- Whether a kind of page leaves a split record open. -/
def dangles : Option Page.Kind → Bool
  | some kind => kind.isDangling
  | none => false

/-- Whether the segment ends in an open split record. -/
def Finding.isDangling (finding : Finding) : Bool :=
  dangles finding.lastKind

/-- What a repair did and what is left to do. -/
structure Report where
  /-- The complete pages of the segment. -/
  pages : Nat
  /-- The bytes that were cut off. -/
  cutBytes : Nat
  /-- Whether a broken end must close a record. -/
  needsBrokenEnd : Bool
  deriving DecidableEq

/-- The kinds of pages, as long as no read fails. -/
def kinds : List Segment.PageRead → Except Error (List Page.Kind)
  | [] => .ok []
  | .error stop :: _ => .error stop.toError
  | .ok (kind, _) :: rest => (kinds rest).map (kind :: ·)

/-- Reads every complete page of a segment file. -/
def inspect (t : FileTree) (path : Path) : Except Error Finding := do
  let length ← (t.length path).mapError .io
  let full := length / Page.size
  let torn := length % Page.size
  if full = 0 then return ⟨0, none, torn⟩
  let content ← (t.read path).mapError .io
  let found ← kinds (Segment.readContent (content.take (full * Page.size)))
  return ⟨found.length, found.getLast?, torn⟩

/-- The kind of the last complete page of a segment file, the pages before it
    unread. -/
def lastKind (t : FileTree) (path : Path) : Except Error (Option Page.Kind) := do
  let length ← (t.length path).mapError .io
  let full := length / Page.size
  if full = 0 then return none
  let content ← (t.read path).mapError .io
  match Page.decode ((content.drop ((full - 1) * Page.size)).take Page.size) with
  | .error damage => throw (.corruption damage.text)
  | .ok (kind, _) => return some kind

/-- Cuts a torn page off a segment file. Where the segment has no complete page,
    the segment before it tells whether a split record is open. -/
def repair (path : Path) (previous : Option Path) : Action FileTree Report := do
  let finding ← Action.reading (inspect · path)
  if 0 < finding.tornBytes then
    Edit.change (·.setLength path (finding.pages * Page.size))
  let dangling ← match finding.lastKind, previous with
    | some kind, _ => pure kind.isDangling
    | none, some earlier => dangles <$> Action.reading (lastKind · earlier)
    | none, none => pure false
  return ⟨finding.pages, finding.tornBytes, dangling || decide (0 < finding.tornBytes)⟩

end Repair
end Shiplog
