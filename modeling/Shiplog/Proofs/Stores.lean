import Shiplog.Proofs.DiskStores
import Shiplog.Store

/-!
Both stores as maps. A backend holds a map when its store does, in memory or in a
directory (`Backend.Holds`); whichever it is, the operations of the store are those of
the map, and they leave the rest of the file tree alone (`Backend.Within`).
-/
namespace Shiplog

namespace FileTree

/-- What lies at a place, whatever its identity: a directory, or a file by its content. -/
def look? (t : FileTree) (place : Path) : Option (Option Bytes) :=
  (t.find? place).map fun node =>
    match node with
    | .directory => none
    | .file _ content => some content

/-- No file or directory differs between two trees. -/
def Same (t t' : FileTree) : Prop := ∀ place, t'.look? place = t.look? place

theorem Same.refl (t : FileTree) : Same t t := fun _ => rfl

end FileTree

/-- Where a store keeps its entries: in memory, or in the directory of a path that leads
    to a place. -/
inductive Backend where
  | memory
  | disk (dir place : Path)

namespace Backend

/-- The keys that a backend takes. -/
def Accepts : Backend → Bytes → Prop
  | memory, _ => True
  | disk _ _, key => DiskStore.Names key

/-- A store holds a map. -/
def Holds : Backend → FileTree → Store → OrderedMap Bytes Bytes → Prop
  | memory, _, store, m => (∃ size, store = .memory ⟨m, size⟩) ∧ m.Sorted
  | disk dir place, t, store, m => store = .disk dir ∧ DiskStore.Holds t dir place m

/-- What the store may change of a tree: nothing, or entries of its directory. -/
def Within : Backend → FileTree → FileTree → Prop
  | memory, t, t' => t' = t
  | disk _ place, t, t' => t'.Sound ∧ FileTree.ChangesOnly place t t'

/-- The store does not lie in the directory at a place. -/
def Apart : Backend → Path → Prop
  | memory, _ => True
  | disk _ place, other => place ≠ other

variable {b : Backend} {t t' : FileTree} {store : Store} {m : OrderedMap Bytes Bytes} {key value : Bytes}

theorem Holds.sorted (holds : b.Holds t store m) : m.Sorted := by
  cases b with
  | memory => exact holds.2
  | disk dir place => exact holds.2.sorted

theorem Holds.accepts (holds : b.Holds t store m) (found : m.get? key = some value) : b.Accepts key := by
  cases b with
  | memory => trivial
  | disk dir place => exact holds.2.named key value found

theorem Holds.get (holds : b.Holds t store m) (accepts : b.Accepts key) : Store.get t store key = .ok (m.get? key) := by
  cases b with
  | memory =>
    obtain ⟨⟨size, rfl⟩, -⟩ := holds
    rfl
  | disk dir place =>
    obtain ⟨rfl, holds⟩ := holds
    exact holds.get accepts

theorem Holds.entries (holds : b.Holds t store m) : Store.entries t store = .ok m.entries := by
  cases b with
  | memory =>
    obtain ⟨⟨size, rfl⟩, -⟩ := holds
    rfl
  | disk dir place =>
    obtain ⟨rfl, holds⟩ := holds
    exact holds.entries

theorem Within.sound (within : b.Within t t') (sound : t.Sound) : t'.Sound := by
  cases b with
  | memory => exact within ▸ sound
  | disk dir place => exact within.1

theorem Within.keeps (within : b.Within t t') : FileTree.KeepsDirectories t t' := by
  cases b with
  | memory => exact within ▸ FileTree.keepsDirectories_refl t
  | disk dir place => exact within.2.keeps

/-- Other directories keep their entries. -/
theorem Within.same (within : b.Within t t') {place : Path} (apart : b.Apart place) (name : String) :
    t'.find? (place ++ [name]) = t.find? (place ++ [name]) := by
  cases b with
  | memory => rw [show t' = t from within]
  | disk dir home =>
    refine within.2.same _ ?_
    rw [List.dropLast_concat]
    exact fun same => apart same.symm

/-- Changes in another directory leave the store as it is. -/
theorem Holds.kept (holds : b.Holds t store m) {place : Path} (apart : b.Apart place) (sound : t'.Sound)
    (changes : FileTree.ChangesOnly place t t') : b.Holds t' store m := by
  cases b with
  | memory => exact holds
  | disk dir home =>
    refine ⟨holds.1, holds.2.kept sound changes.keeps fun name => changes.same _ ?_⟩
    rw [List.dropLast_concat]
    exact apart

theorem Holds.perform_put (holds : b.Holds t store m) (accepts : b.Accepts key) (value : Bytes) :
    ∃ m', (Store.put key value).perform ⟨t, store⟩ = (.ok (), m') ∧ b.Holds m'.disk m'.item (m.insert key value) ∧
      b.Within t m'.disk := by
  cases b with
  | memory =>
    obtain ⟨⟨size, rfl⟩, sorted⟩ := holds
    exact ⟨⟨t, .memory (MemoryStore.put ⟨m, size⟩ key value)⟩, rfl, ⟨⟨_, rfl⟩, sorted.insert key value⟩, rfl⟩
  | disk dir place =>
    obtain ⟨rfl, holds⟩ := holds
    obtain ⟨t', put, holds', changes, -⟩ := holds.perform_put accepts value
    refine ⟨⟨t', .disk dir⟩, ?_, ⟨rfl, holds'⟩, holds'.sound, changes⟩
    simp [Store.put, Action.perform_bind, Store.onDisk, put]

theorem Holds.perform_delete (holds : b.Holds t store m) (accepts : b.Accepts key) :
    ∃ m', (Store.delete key).perform ⟨t, store⟩ = (.ok (), m') ∧ b.Holds m'.disk m'.item (m.erase key) ∧
      b.Within t m'.disk := by
  cases b with
  | memory =>
    obtain ⟨⟨size, rfl⟩, sorted⟩ := holds
    refine ⟨⟨t, .memory (MemoryStore.delete ⟨m, size⟩ key)⟩, rfl, ⟨?_, sorted.erase key⟩, rfl⟩
    cases found : m.get? key with
    | some old => exact ⟨size - (key.length + old.length), by simp [MemoryStore.delete, MemoryStore.get, found]⟩
    | none =>
      exact ⟨size, by simp [MemoryStore.delete, MemoryStore.get, found, OrderedMap.erase_absent sorted found]⟩
  | disk dir place =>
    obtain ⟨rfl, holds⟩ := holds
    obtain ⟨t', removed, holds', changes, -⟩ := holds.perform_delete accepts
    refine ⟨⟨t', .disk dir⟩, ?_, ⟨rfl, holds'⟩, holds'.sound, changes⟩
    simp [Store.delete, Action.perform_bind, Store.onDisk, removed]

/-- A value written twice is as good as written once. -/
theorem Holds.put_twice (holds : b.Holds t store m) (accepts : b.Accepts key) {m' : Mounted Store}
    (once : (Store.put key value).perform ⟨t, store⟩ = (.ok (), m')) :
    ∃ m'', (Store.put key value).perform m' = (.ok (), m'') ∧ m''.item = m'.item ∧ FileTree.Same m'.disk m''.disk := by
  cases b with
  | memory =>
    obtain ⟨⟨size, rfl⟩, sorted⟩ := holds
    obtain rfl : (⟨t, .memory (MemoryStore.put ⟨m, size⟩ key value)⟩ : Mounted Store) = m' := congrArg Prod.snd once
    have there : (m.insert key value).get? key = some value := by rw [OrderedMap.get?_insert, if_pos rfl]
    have table := OrderedMap.insert_same (sorted.insert key value) there
    have counted : value.length ≤ (MemoryStore.put ⟨m, size⟩ key value).size := by
      simp only [MemoryStore.put]
      split <;> omega
    refine ⟨⟨t, .memory (MemoryStore.put (MemoryStore.put ⟨m, size⟩ key value) key value)⟩, rfl, ?_, .refl t⟩
    have again : MemoryStore.put (MemoryStore.put ⟨m, size⟩ key value) key value = MemoryStore.put ⟨m, size⟩ key value := by
      generalize known : MemoryStore.put ⟨m, size⟩ key value = stored at counted
      have tables : stored.table = m.insert key value := by rw [← known]; rfl
      obtain ⟨stored, size'⟩ := stored
      simp only at tables counted
      subst tables
      simp only [MemoryStore.put, MemoryStore.get, there, table]
      congr 1
      omega
    exact congrArg Store.memory again
  | disk dir place =>
    obtain ⟨rfl, holds⟩ := holds
    obtain ⟨t', put, holds', -, id, find⟩ := holds.perform_put accepts value
    obtain ⟨t'', put', -, -, id', find'⟩ := holds'.perform_put accepts value
    obtain rfl : (⟨t', .disk dir⟩ : Mounted Store) = m' := by
      have left := congrArg Prod.snd once
      simpa [Store.put, Action.perform_bind, Store.onDisk, put] using left
    refine ⟨⟨t'', .disk dir⟩, by simp [Store.put, Action.perform_bind, Store.onDisk, put'], rfl, fun other => ?_⟩
    simp only [FileTree.look?, find', find]
    split
    · rfl
    · split <;> rfl

end Backend
end Shiplog
