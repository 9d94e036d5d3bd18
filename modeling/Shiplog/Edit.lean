import Shiplog.Action
import Shiplog.FileTree

/-!
Edits of a file tree as actions. Directories are made with all that lead to them,
and what an edit did before a fault stays done.
-/
namespace Shiplog

namespace Path

/-- A path without the slashes at its end. -/
def trimmed (path : Path) : Path :=
  (path.reverse.dropWhile (· == "")).reverse

/-- The directory that the last name of a path is looked up in. -/
def holder (path : Path) : Path :=
  path.trimmed.dropLast ++ [""]

def endsInSlash (path : Path) : Bool :=
  path.getLast? == some ""

/-- Whether the last name of a path is one or two dots. -/
def endsInDots (path : Path) : Bool :=
  path.trimmed.getLast? == some "." || path.trimmed.getLast? == some ".."

/-- The names of a path that lead somewhere else. -/
def moves (path : Path) : Path :=
  path.filter fun name => name != "" && name != "."

/-- A path and the paths that it leads through, innermost first. -/
def upward (path : Path) : List Path :=
  path.trimmed :: ((List.range path.moves.length).map path.moves.take).tail.reverse

end Path

namespace Edit

def maxLength : Nat := 0x7fffffffffffffff

/-- A change of the tree that a fault leaves undone. -/
def change (f : FileTree → Except Fault FileTree) : Action FileTree Unit :=
  Action.ofStep fun disk =>
    match f disk with
    | .ok disk => (.ok (), disk)
    | .error fault => (.error (.io fault), disk)

/-- The directory at a path, made if there is nothing. -/
def makeDirectory (path : Path) : Action FileTree Unit :=
  change fun t => do
    let place ← t.resolve path
    match t.find? place with
    | some .directory => .ok t
    | some (.file _ _) => .error .alreadyExists
    | none => .ok (t.add place .directory)

/-- The first directory of a list; where the way to it is missing, the next one is
    made before it. -/
def makeFrom : List Path → Action FileTree Unit
  | [] => return ()
  | path :: above => do
    match ← (makeDirectory path).outcome with
    | .error (.io .notFound) =>
      makeFrom above
      makeDirectory path
    | outcome => Action.ofExcept outcome

/-- The directory at a path with all the directories that lead to it. -/
def makeDirectories (path : Path) : Action FileTree Unit :=
  makeFrom path.upward

/-- The file at a path with a given content, and the directories that lead to it. A
    slash at the end names a directory, which no file replaces. -/
def write (path : Path) (bytes : Bytes) : Action FileTree Unit := do
  makeDirectories path.moves.dropLast
  change fun t => do
    if path.endsInSlash then
      let _ ← t.resolve path.holder
      .error .isADirectory
    else t.write path bytes

/-- Bytes at the end of the file at a path, which must be there. -/
def append (path : Path) (bytes : Bytes) : Action FileTree Unit :=
  change fun t => do
    let id ← t.openExisting path
    .ok (t.append id bytes)

/-- The file at a path cut to a length, or filled up with zeros. -/
def resize (path : Path) (length : Nat) : Action FileTree Unit :=
  change fun t => do
    let _ ← t.openExisting path
    if maxLength < length then .error .invalidInput else t.setLength path length

/-- The file at a path with some bytes replaced from an offset on. -/
def overwrite (path : Path) (offset : Nat) (bytes : Bytes) : Action FileTree Unit :=
  change fun t => do
    let id ← t.openExisting path
    if maxLength < offset + bytes.length then .error .invalidInput
    else .ok (t.alter id fun content =>
      if bytes = [] then content
      else FileTree.resize offset content ++ bytes ++ content.drop (offset + bytes.length))

/-- Removes what lies at a path, with all that lies below it. A directory named by
    dots is emptied and stays, and for a single dot that is an error. -/
def remove (path : Path) : Action FileTree Unit := do
  change fun t => do
    let place ← t.resolve path
    match t.find? place with
    | none => .error .notFound
    | some _ => .ok (if path.endsInDots then (t.prune place).add place .directory else t.prune place)
  if path.trimmed.getLast? = some "." then throw (.io .invalidInput)

/-- Moves what lies at one path to another. Dots name no place to move from or to,
    and a slash at the end only a directory. -/
def move (path target : Path) : Action FileTree Unit :=
  change fun t => do
    if path.isMalformed || target.isMalformed then .error .invalidInput
    if path.isOverlong || target.isOverlong then .error .invalidName
    -- The ways to both are looked at before what lies there.
    let _ ← t.resolve path.holder
    let _ ← t.resolve target.holder
    if path.endsInDots || target.endsInDots then .error .resourceBusy
    match ← t.locate path.trimmed with
    | some (.file _ _) =>
      let _ ← t.resolve target.trimmed
      if path.endsInSlash || target.endsInSlash then .error .notADirectory
    | _ => pure ()
    t.rename path.trimmed target.trimmed

end Edit
end Shiplog
