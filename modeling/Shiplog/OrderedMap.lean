/-!
Maps whose entries stand in ascending order of their keys. Inserting a key that
is present replaces its value.
-/
namespace Shiplog

/-- A map from `κ` to `α`, its entries in ascending order of the keys. -/
structure OrderedMap (κ α : Type) where
  entries : List (κ × α)
  deriving DecidableEq

namespace OrderedMap

variable {κ α : Type}

def empty : OrderedMap κ α := ⟨[]⟩

instance : Inhabited (OrderedMap κ α) := ⟨empty⟩

def keys (m : OrderedMap κ α) : List κ :=
  m.entries.map Prod.fst

section
variable [DecidableEq κ]

def get? (m : OrderedMap κ α) (k : κ) : Option α :=
  m.entries.lookup k

def contains (m : OrderedMap κ α) (k : κ) : Bool :=
  (m.get? k).isSome

def erase (m : OrderedMap κ α) (k : κ) : OrderedMap κ α :=
  ⟨m.entries.filter fun entry => !decide (entry.1 = k)⟩

/-- The map with the value at a key changed, if the key is present. -/
def modify (m : OrderedMap κ α) (k : κ) (change : α → α) : OrderedMap κ α :=
  ⟨m.entries.map fun entry => if entry.1 = k then (entry.1, change entry.2) else entry⟩

/-- The map with the entries that satisfy a condition. -/
def filter (m : OrderedMap κ α) (keep : κ → α → Bool) : OrderedMap κ α :=
  ⟨m.entries.filter fun entry => keep entry.1 entry.2⟩

def mapValues {β : Type} (m : OrderedMap κ α) (change : α → β) : OrderedMap κ β :=
  ⟨m.entries.map fun entry => (entry.1, change entry.2)⟩

end

section
variable [LT κ] [DecidableLT κ]

/-- Entries with one more, in its place. -/
def insertEntry (k : κ) (a : α) : List (κ × α) → List (κ × α)
  | [] => [(k, a)]
  | (k', a') :: rest =>
    if k < k' then (k, a) :: (k', a') :: rest
    else if k' < k then (k', a') :: insertEntry k a rest
    else (k, a) :: rest

def insert (m : OrderedMap κ α) (k : κ) (a : α) : OrderedMap κ α :=
  ⟨insertEntry k a m.entries⟩

/-- The map of a list of entries; of two with one key the later stays. -/
def ofList (entries : List (κ × α)) : OrderedMap κ α :=
  entries.foldl (fun m entry => m.insert entry.1 entry.2) empty

end

end OrderedMap
end Shiplog
