import Shiplog.FileTree
import Shiplog.Hex
import Shiplog.Page
import Shiplog.Position

/-!
Segment files. A segment is named by its term and collection in sixteen
hexadecimal digits each, so names sort as positions do. Its pages are read in
order up to the first that is damaged or cut short.
-/
namespace Shiplog

/-- A segment file of a log. -/
structure Segment where
  term : UInt64
  collection : UInt64
  path : Path
  deriving DecidableEq

namespace Segment

/-! ## Names -/

def name (term collection : UInt64) : String :=
  String.ofList (Hex.digits 16 term.toNat ++ Hex.digits 16 collection.toNat)

/-- The path of a segment in the directory of a log. -/
def pathIn (dir : Path) (term collection : UInt64) : Path :=
  dir.child (name term collection)

/-- The term and collection in a segment's file name; both are positive. -/
def parseName? (name : String) : Option (UInt64 × UInt64) :=
  let cs := name.toList
  if cs.length ≠ 32 then none
  else match Hex.toNat? (cs.take 16), Hex.toNat? (cs.drop 16) with
    | some term, some collection =>
      if term = 0 ∨ collection = 0 then none else some (UInt64.ofNat term, UInt64.ofNat collection)
    | _, _ => none

/-- Whether a segment stands no later than another. -/
def notAfter (a b : Segment) : Bool :=
  decide (a.term < b.term) || (decide (a.term = b.term) && decide (a.collection ≤ b.collection))

/-- The segment files in a directory, oldest first; what is no file or has
    another kind of name is passed over. -/
def list (t : FileTree) (dir : Path) : Except Fault (List Segment) := do
  let children ← t.list dir
  let segments := children.filterMap fun (name, node) =>
    match node with
    | .directory => none
    | .file _ _ => (parseName? name).map fun (term, collection) => ⟨term, collection, dir.child name⟩
  .ok (segments.mergeSort notAfter)

/-! ## Pages -/

/-- What ends the reading of a segment before the end of its file. -/
inductive Stop where
  | unreadable (fault : Fault)
  | damaged (damage : Page.Damage)
  /-- The file ends inside the page of a given number. -/
  | torn (number filled : Nat)
  deriving DecidableEq

/-- What a page-sized read of a segment gives. -/
abbrev PageRead := Except Stop (Page.Kind × Bytes)

/-- The text that reports a file that ends inside a page. -/
def tornText (number filled : Nat) : String :=
  s!"truncated page {number} ({filled} of {Page.size} bytes)"

/-- The pages in page-sized pieces of a file, up to the first that is none. -/
def readPieces : Nat → List Bytes → List PageRead
  | _, [] => []
  | number, piece :: rest =>
    if piece.length < Page.size then [.error (.torn number piece.length)]
    else match Page.decode piece with
      | .error damage => [.error (.damaged damage)]
      | .ok page => .ok page :: readPieces (number + 1) rest

def readContent (content : Bytes) : List PageRead :=
  readPieces 0 (content.chunks Page.size)

/-- The pages of the segment file at a path. A directory opens, but cannot be
    read. -/
def readPages (t : FileTree) (path : Path) : Except Fault (List PageRead) :=
  match t.read path with
  | .ok content => .ok (readContent content)
  | .error .isADirectory => .ok [.error (.unreadable .isADirectory)]
  | .error fault => .error fault

/-- Whether a read took in a complete page, damaged or not. -/
def isComplete : PageRead → Bool
  | .ok _ => true
  | .error (.damaged _) => true
  | .error _ => false

end Segment
end Shiplog
