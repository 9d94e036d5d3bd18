import Shiplog.Checksum
import Shiplog.Edit
import Shiplog.Hex

/-!
The store that keeps each value in a file of its own. The file is named by the
key in lower-case hexadecimal, so the names sort as the keys do, and holds the
checksum of the value before the value. A value is written to a temporary file
that then takes the place of the old one.
-/
namespace Shiplog.DiskStore

def maxKeyLength : Nat := 120

/-- The ending of the names of temporary files. -/
def temporaryEnding : String := ".tmp"

/-- The path of a key's file; keys have 1 to 120 bytes. -/
def keyPath (dir : Path) (key : Bytes) : Except Error Path :=
  if key = [] ∨ maxKeyLength < key.length then
    .error (.storage s!"key length {key.length} outside 1..={maxKeyLength}")
  else .ok (dir.child (Hex.ofBytes key))

/-- The path of the temporary file for a key's file. -/
def temporaryPath (path : Path) : Path :=
  path.dropLast ++ [path.getLastD "" ++ temporaryEnding]

/-- The key that a file name spells, if it is one. -/
def keyOfName? (name : String) : Option Bytes :=
  if name = "" then none else Hex.toBytes? name

/-- The content of the file of a value. -/
def encodeValue (value : Bytes) : Bytes :=
  Bytes.ofNatLE 4 (Checksum.crc32 value).toNat ++ value

/-- The value in the content of the file at a path. -/
def decodeValue (path : Path) (content : Bytes) : Except Error Bytes :=
  if content.length < 4 then .error (.storage ("value file " ++ path.text ++ " is truncated"))
  else if Bytes.toNatLE (content.take 4) ≠ (Checksum.crc32 (content.drop 4)).toNat then
    .error (.storage ("checksum mismatch in value file " ++ path.text))
  else .ok (content.drop 4)

/-- The value in the file at a path, if there is one. -/
def readValue (t : FileTree) (path : Path) : Except Error (Option Bytes) :=
  match t.read path with
  | .error .notFound => .ok none
  | .error fault => .error (.io fault)
  | .ok content => (decodeValue path content).map some

def get (t : FileTree) (dir : Path) (key : Bytes) : Except Error (Option Bytes) := do
  readValue t (← keyPath dir key)

/-- Writes a value. If the temporary file cannot take the place of the old file,
    it stays. -/
def put (dir : Path) (key value : Bytes) : Action FileTree Unit := do
  let path ← Action.ofExcept (keyPath dir key)
  Edit.change (·.write (temporaryPath path) (encodeValue value))
  Edit.change (·.rename (temporaryPath path) path)

/-- Removes a key; a key without a file is no error. -/
def delete (dir : Path) (key : Bytes) : Action FileTree Unit := do
  let path ← Action.ofExcept (keyPath dir key)
  Edit.change fun disk =>
    match disk.removeFile path with
    | .error .notFound => .ok disk
    | result => result

/-- The names of the key files in a directory, in ascending order. -/
def keyNames (children : List (String × Inode)) : List (String × Bytes) :=
  let names := children.filterMap fun (name, node) =>
    match node with
    | .directory => none
    | .file _ _ => (keyOfName? name).map (name, ·)
  names.mergeSort fun a b => decide (¬ b.1 < a.1)

/-- The values of some keys, as far as their files are there. -/
def valuesOf (t : FileTree) (dir : Path) : List (String × Bytes) → Except Error (List (Bytes × Bytes))
  | [] => .ok []
  | (name, key) :: rest => do
    match ← readValue t (dir.child name) with
    | some value => return (key, value) :: (← valuesOf t dir rest)
    | none => valuesOf t dir rest

/-- The entries in ascending order of the keys. -/
def entries (t : FileTree) (dir : Path) : Except Error (List (Bytes × Bytes)) := do
  let children ← (t.list dir).mapError .io
  valuesOf t dir (keyNames children)

/-- Makes a directory ready for use: it is created if need be, and temporary
    files left in it are removed. -/
def prepare (dir : Path) : Action FileTree Unit := do
  Edit.makeDirectories dir
  let children ← Action.reading fun disk => (disk.list dir).mapError .io
  children.forM fun (name, _) => do
    if name.endsWith temporaryEnding then Edit.change (·.removeFile (dir.child name))

end Shiplog.DiskStore
