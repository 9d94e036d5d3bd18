import Shiplog.Bytes
import Shiplog.OrderedMap

/-!
The store that lives in memory: a map from keys to values, and a running count of
the bytes it holds.
-/
namespace Shiplog

/-- A store in memory. -/
structure MemoryStore where
  table : OrderedMap Bytes Bytes
  /-- The bytes of all keys and values. -/
  size : Nat
  deriving DecidableEq

namespace MemoryStore

def empty : MemoryStore := ⟨.empty, 0⟩

instance : Inhabited MemoryStore := ⟨empty⟩

def get (m : MemoryStore) (key : Bytes) : Option Bytes :=
  m.table.get? key

/-- The store with a value at a key. A key that is present is counted already. -/
def put (m : MemoryStore) (key value : Bytes) : MemoryStore :=
  { table := m.table.insert key value
    size := match m.get key with
      | some old => m.size - old.length + value.length
      | none => m.size + (key.length + value.length) }

def delete (m : MemoryStore) (key : Bytes) : MemoryStore :=
  match m.get key with
  | some old => ⟨m.table.erase key, m.size - (key.length + old.length)⟩
  | none => m

/-- The entries in ascending order of the keys. -/
def entries (m : MemoryStore) : List (Bytes × Bytes) :=
  m.table.entries

def count (m : MemoryStore) : Nat :=
  m.table.entries.length

def isEmpty (m : MemoryStore) : Bool :=
  m.table.entries.isEmpty

end MemoryStore
end Shiplog
