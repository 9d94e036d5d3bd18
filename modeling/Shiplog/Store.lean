import Shiplog.Mounted
import Shiplog.Store.Disk
import Shiplog.Store.Memory

/-!
The key/value store below the log: a map from byte keys to byte values, in memory
or on disk.
-/
namespace Shiplog

/-- A key/value store. -/
inductive Store where
  | memory (table : MemoryStore)
  | disk (dir : Path)
  deriving DecidableEq

namespace Store

def get (t : FileTree) : Store → Bytes → Except Error (Option Bytes)
  | memory table, key => .ok (table.get key)
  | disk dir, key => DiskStore.get t dir key

/-- The entries in ascending order of the keys. -/
def entries (t : FileTree) : Store → Except Error (List (Bytes × Bytes))
  | memory table => .ok table.entries
  | disk dir => DiskStore.entries t dir

/-- An action on the file tree of a mounted store. -/
def onDisk {α : Type} (act : Action FileTree α) : Action (Mounted Store) α :=
  Action.focus (fun m => m.disk) (fun m disk => { m with disk }) act

def put (key value : Bytes) : Action (Mounted Store) Unit := do
  match ← Mounted.current with
  | memory table => Mounted.update fun _ => memory (table.put key value)
  | disk dir => onDisk (DiskStore.put dir key value)

/-- Removes a key; an absent key is no error. -/
def delete (key : Bytes) : Action (Mounted Store) Unit := do
  match ← Mounted.current with
  | memory table => Mounted.update fun _ => memory (table.delete key)
  | disk dir => onDisk (DiskStore.delete dir key)

end Store
end Shiplog
