import Shiplog.Bytes
import Shiplog.Fault

/-!
A tree of files and directories, kept by the names that lead from the root. Every
file has an identity of its own, so that a handle opened for appending keeps
writing to its file when the file is renamed, and into nothing once it is removed.
Operations give the fault that stops them or the tree they leave.
-/
namespace Shiplog

/-- A path as its text spells it: the names between the slashes, outermost first. -/
abbrev Path := List String

namespace Path

/-- The path with the names between the slashes of a text. -/
def ofString (text : String) : Path :=
  text.splitOn "/"

/-- The entry of a given name in the directory at a path; a text that ends in a
    slash, or is empty, names the directory all the same. -/
def child (dir : Path) (name : String) : Path :=
  if dir.getLast? = some "" then dir.dropLast ++ [name] else dir ++ [name]

/-- The path that a text names from a directory; a text that starts with a slash
    names one from the root. -/
def join (dir : Path) (text : String) : Path :=
  if text.startsWith "/" then ofString text
  else if dir.getLast? = some "" then dir.dropLast ++ ofString text
  else dir ++ ofString text

/-- The text of a path, its names separated by slashes. -/
def text (path : Path) : String :=
  "/".intercalate path

/-- The longest name, in bytes. -/
def maxNameSize : Nat := 255

/-- The longest path, in bytes. -/
def maxSize : Nat := 4095

/-- The bytes that a name takes. -/
def nameSize (name : String) : Nat :=
  name.utf8ByteSize

/-- The bytes that a path takes, one more for each name. -/
def span : Path → Nat
  | [] => 0
  | name :: rest => nameSize name + 1 + span rest

/-- Whether a path holds the character with the code zero, which no name may hold. -/
def isMalformed (path : Path) : Bool :=
  path.any fun name => name.toList.any fun c => c.toNat = 0

def isOverlong (path : Path) : Bool :=
  decide (maxSize + 1 < path.span)

end Path

/-- The identity of a file, whatever its path. -/
abbrev FileId := Nat

/-- What lies at a place in a tree. -/
inductive Inode where
  | directory
  | file (id : FileId) (content : Bytes)
  deriving DecidableEq

/-- A tree of files: what lies at each place, the newest entry first. -/
structure FileTree where
  entries : List (Path × Inode)
  nextId : FileId
  deriving DecidableEq

namespace FileTree

def empty : FileTree := ⟨[], 0⟩

instance : Inhabited FileTree := ⟨empty⟩

/-! ## Looking

A path is walked name by name to a place in the tree. An empty name and a single
dot stay in a directory and two dots lead up from it, so the names of a place are
those of plain entries, and only the last need not be there.
-/

/-- What lies at a place; the root is a directory. -/
def find? (t : FileTree) (place : Path) : Option Inode :=
  if place = [] then some .directory else t.entries.lookup place

/-- One name further from a place. -/
def step (t : FileTree) (place : Path) (name : String) : Except Fault Path :=
  match t.find? place with
  | none => .error .notFound
  | some (.file _ _) => .error .notADirectory
  | some .directory =>
    if name = "" ∨ name = "." then .ok place
    else if name = ".." then .ok place.dropLast
    else if Path.maxNameSize < Path.nameSize name then .error .invalidName
    else .ok (place ++ [name])

/-- The place that a path leads to. -/
def resolve (t : FileTree) (path : Path) : Except Fault Path :=
  if path.isMalformed then .error .invalidInput
  else if path.isOverlong then .error .invalidName
  else path.foldlM t.step []

/-- What lies where a path leads to. -/
def locate (t : FileTree) (path : Path) : Except Fault (Option Inode) := do
  return t.find? (← t.resolve path)

/-- The names and nodes in a directory, the newest first. -/
def children (t : FileTree) (place : Path) : List (String × Inode) :=
  t.entries.filterMap fun (path, node) =>
    match path.getLast? with
    | some name => if path.dropLast = place then some (name, node) else none
    | none => none

/-- The names and nodes in the directory at a path. -/
def list (t : FileTree) (dir : Path) : Except Fault (List (String × Inode)) := do
  let place ← t.resolve dir
  match t.find? place with
  | none => .error .notFound
  | some (.file _ _) => .error .notADirectory
  | some .directory => .ok (t.children place)

def read (t : FileTree) (path : Path) : Except Fault Bytes := do
  match ← t.locate path with
  | none => .error .notFound
  | some .directory => .error .isADirectory
  | some (.file _ content) => .ok content

/-- The size of what lies at a path. A directory takes twenty bytes for itself,
    twenty for the way up, and twenty for each entry. -/
def length (t : FileTree) (path : Path) : Except Fault Nat := do
  let place ← t.resolve path
  match t.find? place with
  | none => .error .notFound
  | some .directory => .ok (20 * (2 + (t.children place).length))
  | some (.file _ content) => .ok content.length

/-! ## Changing -/

/-- The tree with a new entry. -/
def add (t : FileTree) (place : Path) (node : Inode) : FileTree :=
  { t with entries := (place, node) :: t.entries }

/-- The tree with the content of one file changed. -/
def alter (t : FileTree) (id : FileId) (change : Bytes → Bytes) : FileTree :=
  { t with entries := t.entries.map fun (path, node) =>
      match node with
      | .file id' content => (path, .file id' (if id' = id then change content else content))
      | .directory => (path, .directory) }

/-- The tree without the entries at and below a place. -/
def prune (t : FileTree) (place : Path) : FileTree :=
  { t with entries := t.entries.filter fun entry => !place.isPrefixOf entry.1 }

/-- The tree with a new empty file, and that file's identity. -/
def create (t : FileTree) (place : Path) : FileId × FileTree :=
  (t.nextId, { t.add place (.file t.nextId []) with nextId := t.nextId + 1 })

/-- The identity of the file at a path, which is created if there is none. -/
def openFile (t : FileTree) (path : Path) : Except Fault (FileId × FileTree) := do
  let place ← t.resolve path
  match t.find? place with
  | none => .ok (t.create place)
  | some .directory => .error .isADirectory
  | some (.file id _) => .ok (id, t)

/-- The identity of the file at a path, which must be there. -/
def openExisting (t : FileTree) (path : Path) : Except Fault FileId := do
  match ← t.locate path with
  | none => .error .notFound
  | some .directory => .error .isADirectory
  | some (.file id _) => .ok id

/-- Bytes at the end of an open file; a file that was removed takes none. -/
def append (t : FileTree) (id : FileId) (bytes : Bytes) : FileTree :=
  t.alter id (· ++ bytes)

/-- The file at a path with a given content, created if need be. -/
def write (t : FileTree) (path : Path) (bytes : Bytes) : Except Fault FileTree := do
  let (id, t) ← t.openFile path
  .ok (t.alter id fun _ => bytes)

/-- A content cut to a length, or filled up with zeros. -/
def resize (length : Nat) (content : Bytes) : Bytes :=
  content.take length ++ Bytes.zeros (length - content.length)

/-- The file at a path cut to a length, or filled up with zeros. -/
def setLength (t : FileTree) (path : Path) (length : Nat) : Except Fault FileTree := do
  let id ← t.openExisting path
  .ok (t.alter id (resize length))

def removeFile (t : FileTree) (path : Path) : Except Fault FileTree := do
  let place ← t.resolve path
  match t.find? place with
  | none => .error .notFound
  | some .directory => .error .isADirectory
  | some (.file _ _) => .ok (t.prune place)

/-- The fault of putting a node in the place of another, if it has one. -/
def replaceFault? (t : FileTree) (source : Inode) (target : Path) : Option Fault :=
  match source, t.find? target with
  | _, none => none
  | .file _ _, some (.file _ _) => none
  | .file _ _, some .directory => some .isADirectory
  | .directory, some (.file _ _) => some .notADirectory
  | .directory, some .directory => if t.children target = [] then none else some .directoryNotEmpty

/-- What lies at one path moved to another, in place of what lay there; a file
    replaces a file, and a directory an empty directory. Nothing moves below itself
    or into the place of a directory that it lies in. -/
def rename (t : FileTree) (path target : Path) : Except Fault FileTree := do
  let source ← t.resolve path
  match t.find? source with
  | none => .error .notFound
  | some node =>
    let goal ← t.resolve target
    if source = goal then .ok t
    else if source.isPrefixOf goal then .error .invalidInput
    else if goal.isPrefixOf source then .error .directoryNotEmpty
    else match t.replaceFault? node goal with
      | some fault => .error fault
      | none =>
        let moved := t.entries.filterMap fun (place, node) =>
          if source.isPrefixOf place then some (goal ++ place.drop source.length, node) else none
        let t := (t.prune source).prune goal
        .ok { t with entries := moved ++ t.entries }

end FileTree
end Shiplog
